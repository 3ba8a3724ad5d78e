import Nomo.Syntax.TypeRef

/-!
# What stands outside all brackets

A reader of tokens that counts the open brackets of all kinds and notes the words outside them that start a
declaration. In types these are only the `extern` and the `fn` of a callback, and there a parenthesis
follows (`parseTypeRef_reads`).
-/

namespace Nomo.Syntax

open Nomo.Lib

/-- The kinds of top-level items. -/
inductive ItemKind
  | struct | «enum» | interface | externOpaque | externBlock | impl | const | function
deriving DecidableEq

/-- What has to come next, outside all brackets. -/
inductive Awaits
  | nothing
  /-- After `pub`. -/
  | item
  /-- After `suspend`. -/
  | fn
  /-- After `fn`: a name, or the parenthesis of a callback type. -/
  | name
  /-- After `extern`. -/
  | abi
  /-- After `extern opaque`. -/
  | typeWord
deriving DecidableEq

/-- The items that the words outside all brackets seem to start, and how many callback types stand there. -/
structure Entries where
  kinds : List ItemKind
  callbacks : ℕ
deriving DecidableEq

/-- One more item seems to start. -/
def Entries.add (entries : Entries) (kind : ItemKind) : Entries :=
  { entries with kinds := entries.kinds ++ [kind] }

/-- One more callback type. -/
def Entries.callback (entries : Entries) : Entries :=
  { entries with callbacks := entries.callbacks + 1 }

/-- The open brackets, and what has been noted outside them. -/
structure Outside where
  depth : ℕ
  awaits : Awaits
  entries : Entries
deriving DecidableEq

namespace Outside

/-- After the first word of an item, or of a callback type. -/
def start (w : Outside) : TokenKind → Option Outside
  | .kwStruct => some { w with awaits := .nothing, entries := w.entries.add .struct }
  | .kwEnum => some { w with awaits := .nothing, entries := w.entries.add .«enum» }
  | .kwInterface => some { w with awaits := .nothing, entries := w.entries.add .interface }
  | .kwConst => some { w with awaits := .nothing, entries := w.entries.add .const }
  | .kwFn => some { w with awaits := .name, entries := w.entries.add .function }
  | .kwSuspend => some { w with awaits := .fn }
  | _ => none

/-- After a token, where nothing has to come next. -/
def nextFree (w : Outside) : TokenKind → Option Outside
  | .lBrace | .lParen | .lBracket => some { w with depth := w.depth + 1 }
  | .rBrace | .rParen | .rBracket =>
    if w.depth = 0 then none else some { w with depth := w.depth - 1 }
  | .kwPub => if w.depth = 0 then some { w with awaits := .item } else some w
  | .kwExtern => if w.depth = 0 then some { w with awaits := .abi } else some w
  | .kwImpl => if w.depth = 0 then some { w with entries := w.entries.add .impl } else some w
  | .kwStruct => if w.depth = 0 then w.start .kwStruct else some w
  | .kwEnum => if w.depth = 0 then w.start .kwEnum else some w
  | .kwInterface => if w.depth = 0 then w.start .kwInterface else some w
  | .kwConst => if w.depth = 0 then w.start .kwConst else some w
  | .kwFn => if w.depth = 0 then w.start .kwFn else some w
  | .kwSuspend => if w.depth = 0 then w.start .kwSuspend else some w
  | .eof => none
  | _ => some w

/-- After a token, unless it closes a bracket that is not open, or something else has to come next. -/
def next (w : Outside) (token : Token) : Option Outside :=
  match w.awaits, token.kind with
  | .nothing, kind => w.nextFree kind
  | .item, kind => w.start kind
  | .fn, .kwFn => w.start .kwFn
  | .name, .ident _ | .name, .kwPanic => some { w with awaits := .nothing }
  | .name, .lParen =>
    some { w with depth := w.depth + 1, awaits := .nothing, entries := w.entries.callback }
  | .abi, .string _ => some { w with awaits := .nothing, entries := w.entries.add .externBlock }
  | .abi, .ident "opaque" => some { w with awaits := .typeWord }
  | .typeWord, .ident "type" => some { w with awaits := .nothing, entries := w.entries.add .externOpaque }
  | _, _ => none

/-- Between two constructs. -/
def resting (depth : ℕ) (entries : Entries) : Outside := ⟨depth, .nothing, entries⟩

/-- More may be noted, but nothing inside brackets; and every callback type is noted to start an item. -/
structure Grown (depth : ℕ) (entries entries' : Entries) : Prop where
  kinds : entries.kinds <+: entries'.kinds
  callbacks : entries.callbacks ≤ entries'.callbacks
  same_iff : entries'.kinds = entries.kinds ↔ entries'.callbacks = entries.callbacks
  inside : 0 < depth → entries' = entries

theorem Grown.refl (depth : ℕ) (entries : Entries) : Grown depth entries entries :=
  ⟨List.prefix_rfl, le_rfl, Iff.of_eq (by simp), fun _ => rfl⟩

theorem Grown.trans {depth : ℕ} {entries entries' entries'' : Entries}
    (h : Grown depth entries entries') (h' : Grown depth entries' entries'') :
    Grown depth entries entries'' := by
  refine ⟨h.kinds.trans h'.kinds, h.callbacks.trans h'.callbacks, ?_,
    fun hdepth => (h'.inside hdepth).trans (h.inside hdepth)⟩
  constructor
  · intro hkinds
    have hback : entries'.kinds = entries.kinds := by
      refine List.IsPrefix.eq_of_length_le ?_ ?_
      · rw [← hkinds]
        exact h'.kinds
      · exact h.kinds.length_le
    have hforth : entries''.kinds = entries'.kinds := hkinds.trans hback.symm
    rw [h'.same_iff.1 hforth, h.same_iff.1 hback]
  · intro hcallbacks
    have hle := h.callbacks
    have hle' := h'.callbacks
    rw [h'.same_iff.2 (by omega), h.same_iff.2 (by omega)]

end Outside

/-- A kind that opens a bracket. -/
def isOpening : TokenKind → Bool
  | .lBrace | .lParen | .lBracket => true
  | _ => false

/-- A kind that closes a bracket. -/
def isClosing : TokenKind → Bool
  | .rBrace | .rParen | .rBracket => true
  | _ => false

/-- A kind that is no bracket and starts no declaration. -/
def isPlain : TokenKind → Bool
  | .lBrace | .lParen | .lBracket | .rBrace | .rParen | .rBracket => false
  | .kwExtern | .kwFn | .kwPub | .kwSuspend | .kwStruct | .kwEnum | .kwInterface | .kwImpl | .kwConst =>
    false
  | .eof => false
  | _ => true

namespace Outside

variable {depth : ℕ} {entries : Entries} {token : Token}

theorem next_plain (h : isPlain token.kind = true) :
    (resting depth entries).next token = some (resting depth entries) := by
  unfold next resting
  revert h
  cases token.kind with
  | _ => simp [isPlain, nextFree]

theorem next_opening (h : isOpening token.kind = true) :
    (resting depth entries).next token = some (resting (depth + 1) entries) := by
  unfold next resting
  revert h
  cases token.kind with
  | _ => simp [isOpening, nextFree]

theorem next_closing (h : isClosing token.kind = true) :
    (resting (depth + 1) entries).next token = some (resting depth entries) := by
  unfold next resting
  revert h
  cases token.kind with
  | _ => simp [isClosing, nextFree]

theorem next_inside (heof : token.kind ≠ .eof) (hopening : isOpening token.kind = false)
    (hclosing : isClosing token.kind = false) :
    (resting (depth + 1) entries).next token = some (resting (depth + 1) entries) := by
  unfold next resting
  revert heof hopening hclosing
  cases token.kind with
  | _ => simp [isOpening, isClosing, nextFree]

theorem plain_newlines {tokens : List Token}
    (h : ∀ token ∈ tokens, token.kind = .newline) :
    tokens.foldlM next (resting depth entries) = some (resting depth entries) := by
  induction tokens with
  | nil => rfl
  | cons token tokens ih =>
    rw [List.foldlM_cons, next_plain (by rw [h token List.mem_cons_self]; rfl)]
    exact ih fun token htoken => h token (List.mem_cons_of_mem _ htoken)

end Outside

open Outside

/-! ## Reading types -/

theorem TypeInstr.suffix (i : TypeInstr) (s : TypeState) (r : i.Answer) (t : TypeState)
    (h : i.handle s = .ok (r, t)) : t.stream.rest <:+ s.stream.rest := by
  cases i with
  | advance =>
    cases h
    rcases s.stream.advance_spec with ⟨-, hsame⟩ | ⟨-, hrest, -⟩
    · simp [hsame]
    · exact ⟨[s.stream.peek], hrest.symm⟩
  | consumeNewline =>
    cases h
    exact List.dropWhile_suffix _
  | takePendingGt =>
    simp only [handle] at h
    split_ifs at h
    all_goals
      cases h
      exact List.suffix_rfl
  | stop reason => cases h
  | _ =>
    cases h
    exact List.suffix_rfl

/-- A program of the parser of types leads to what the reader has noted. -/
def TypeParse.Leads {α : Type} (p : TypeParse α) (s : TypeState) (w : Outside)
    (post : α → TypeState → Outside → Prop) : Prop :=
  Program.Leads TypeInstr.handle (Program.reading (·.stream.rest) Outside.next) p s w post

namespace TypeParse

variable {α β : Type} {s : TypeState} {w : Outside} {post : α → TypeState → Outside → Prop}
  {depth : ℕ} {entries : Entries}

theorem Leads.peek {f : Token → TypeParse α} (h : Leads (f s.stream.peek) s w post) :
    Leads (TypeParse.peek >>= f) s w post := by
  refine Program.Leads.bind (Program.Leads.perform fun token t hhandle => ?_)
  cases hhandle
  exact ⟨w, by simp [Program.reading], h⟩

theorem Leads.advance {w' : Outside} {post : Unit → TypeState → Outside → Prop}
    (heof : s.stream.peek.kind ≠ .eof) (hnext : w.next s.stream.peek = some w')
    (h : ∀ t, post () t w') : Leads TypeParse.advance s w post := by
  refine Program.Leads.perform fun _ t hhandle => ?_
  cases hhandle
  rcases s.stream.advance_spec with ⟨heof', -⟩ | ⟨-, hrest, -⟩
  · exact absurd heof' heof
  refine ⟨w', ?_, h _⟩
  have htaken : Program.taken (fun s : TypeState => s.stream.rest) s
      { s with stream := s.stream.advance } = [s.stream.peek] := Program.taken_eq hrest
  rw [Program.reading, htaken, List.foldlM_cons, hnext]
  rfl

theorem Leads.skipNewlines {post : Unit → TypeState → Outside → Prop}
    (h : post () { s with stream := s.stream.consumeNewline } (resting depth entries)) :
    Leads TypeParse.skipNewlines s (resting depth entries) post := by
  refine Program.Leads.perform fun _ t hhandle => ?_
  cases hhandle
  refine ⟨_, ?_, h⟩
  have htaken : Program.taken (fun s : TypeState => s.stream.rest) s
      { s with stream := s.stream.consumeNewline } = s.stream.rest.takeWhile (·.kind = .newline) :=
    Program.taken_eq (List.takeWhile_append_dropWhile ..).symm
  rw [Program.reading, htaken]
  exact plain_newlines fun token htoken => by simpa using List.mem_takeWhile_imp htoken

theorem Leads.ask {question : Lookahead} {f : Bool → TypeParse α}
    (h : Leads (f (s.stream.answer question)) s w post) :
    Leads (TypeParse.ask question >>= f) s w post := by
  refine Program.Leads.bind (Program.Leads.perform fun token t hhandle => ?_)
  cases hhandle
  exact ⟨w, by simp [Program.reading], h⟩

theorem Leads.takePendingGt {f : Bool → TypeParse α} (h : ∀ yes t, Leads (f yes) t w post) :
    Leads (TypeParse.takePendingGt >>= f) s w post := by
  refine Program.Leads.bind (Program.Leads.perform fun yes t hhandle => ?_)
  refine ⟨w, ?_, h yes t⟩
  simp only [TypeInstr.handle] at hhandle
  split_ifs at hhandle
  all_goals
    cases hhandle
    simp [Program.reading, Program.taken]

theorem Leads.leavePendingGt {f : Unit → TypeParse α} (h : ∀ t, Leads (f ()) t w post) :
    Leads (TypeParse.leavePendingGt >>= f) s w post := by
  refine Program.Leads.bind (Program.Leads.perform fun token t hhandle => ?_)
  cases hhandle
  exact ⟨w, by simp [Program.reading, Program.taken], h _⟩

theorem Leads.stop {reason : Stop} : Leads (TypeParse.stop reason : TypeParse α) s w post := nofun

theorem Leads.error {code message : String} {length : Token → ℕ} :
    Leads (TypeParse.error code message length : TypeParse α) s w post := Leads.peek Leads.stop

theorem Leads.advancePlain {kind : TokenKind} {f : Unit → TypeParse α}
    (hkind : s.stream.peek.kind = kind) (hplain : isPlain kind = true)
    (h : ∀ t, Leads (f ()) t (resting depth entries) post) :
    Leads (TypeParse.advance >>= f) s (resting depth entries) post := by
  refine Program.Leads.bind (Leads.advance ?_ (next_plain (by rwa [hkind])) h)
  rintro heof
  rw [← hkind, heof] at hplain
  cases hplain

theorem Leads.expect (w' : Outside) {kind : TokenKind} {code message : String} {length : Token → ℕ}
    {f : Unit → TypeParse α} (heof : kind ≠ .eof)
    (hnext : ∀ token : Token, token.kind = kind → w.next token = some w')
    (h : ∀ t, Leads (f ()) t w' post) :
    Leads (TypeParse.expect kind code message length >>= f) s w post := by
  refine Program.Leads.bind (Leads.peek ?_)
  split_ifs with hkind
  · exact Leads.advance (by rwa [hkind]) (hnext _ hkind) h
  · exact Leads.error

theorem Leads.loop {round : α → TypeParse (α ⊕ β)} {post : β → TypeState → Outside → Prop}
    (hround : ∀ a s, Leads (round a) s w fun r t w' => match r with
      | .inl _ => w' = w
      | .inr result => post result t w') (rounds : ℕ) (a : α) :
    Leads (TypeParse.loop round rounds a) s w post :=
  Program.Leads.loop (fun _ _ w' => w' = w) (fun _ _ => nofun)
    (fun a s w' hw => by
      subst hw
      refine (hround a s).mono fun r t w' hpost => ?_
      cases r <;> exact hpost) rounds rfl

end TypeParse

open TypeParse

/-! ## Paths -/

section Paths

variable {depth : ℕ} {entries : Entries}

/-- A program that takes only tokens of plain kinds. -/
def TypeParse.TakesPlain {α : Type} (p : TypeParse α) : Prop :=
  ∀ s depth entries, TypeParse.Leads p s (resting depth entries) fun _ _ w => w = resting depth entries

theorem expectIdent_takesPlain (message : String) :
    TypeParse.TakesPlain (TypeParse.expectIdent message) := by
  intro s depth entries
  refine Leads.peek ?_
  split
  · rename_i value hkind
    exact Leads.advancePlain hkind rfl fun t => Program.Leads.pure rfl
  · exact Leads.error

theorem expectPathSegmentAfterDot_takesPlain : TypeParse.TakesPlain expectPathSegmentAfterDot := by
  intro s depth entries
  refine Leads.peek ?_
  split
  · rename_i value hkind
    exact Leads.advancePlain hkind rfl fun t => Program.Leads.pure rfl
  · rename_i hkind
    exact Leads.advancePlain hkind rfl fun t => Program.Leads.pure rfl
  · exact Leads.error

theorem consumeDotPathSeparator_leads (s : TypeState) :
    TypeParse.Leads consumeDotPathSeparator s (resting depth entries) fun found t w =>
      w = resting depth entries ∧ (found = true → t.stream.peek.kind = .dot) := by
  refine Leads.peek ?_
  split_ifs with hdot
  · exact Program.Leads.pure ⟨rfl, fun _ => hdot⟩
  refine Leads.ask ?_
  split_ifs with hask
  · exact Program.Leads.bind (Leads.skipNewlines
      (Program.Leads.pure ⟨rfl, fun _ => s.stream.peek_consumeNewline hask⟩))
  · exact Program.Leads.pure ⟨rfl, nofun⟩

theorem parsePath_takesPlain (rounds : ℕ) : TypeParse.TakesPlain (parsePath rounds) := by
  intro s depth entries
  refine Program.Leads.bind ((expectIdent_takesPlain _ s depth entries).mono fun first s _ hw => ?_)
  subst hw
  refine Leads.loop (fun parts s => ?_) rounds [first]
  refine Program.Leads.bind ((consumeDotPathSeparator_leads s).mono fun found s _ hfound => ?_)
  obtain ⟨rfl, hdot⟩ := hfound
  split_ifs with hyes
  · refine Leads.advancePlain (hdot hyes) rfl fun s => ?_
    refine Program.Leads.bind ((expectPathSegmentAfterDot_takesPlain s _ _).mono fun part s _ hw => ?_)
    exact Program.Leads.pure hw
  · exact Program.Leads.pure rfl

theorem parseImportPath_takesPlain (rounds : ℕ) : TypeParse.TakesPlain (parseImportPath rounds) := by
  intro s depth entries
  refine Program.Leads.bind ((expectIdent_takesPlain _ s depth entries).mono fun first s _ hw => ?_)
  subst hw
  refine Leads.loop (fun parts s => ?_) rounds [first]
  refine Program.Leads.bind ((consumeDotPathSeparator_leads s).mono fun found s _ hfound => ?_)
  obtain ⟨rfl, hdot⟩ := hfound
  split_ifs with hyes
  · refine Leads.advancePlain (hdot hyes) rfl fun s => Leads.peek ?_
    split_ifs
    · exact Leads.error
    · refine Program.Leads.bind ((expectPathSegmentAfterDot_takesPlain s _ _).mono fun part s _ hw => ?_)
      exact Program.Leads.pure hw
  · exact Program.Leads.pure rfl

end Paths

/-! ## Types -/

/-- A program that closes the brackets that it opens. -/
def TypeParse.Reads {α : Type} (p : TypeParse α) : Prop :=
  ∀ s depth entries, TypeParse.Leads p s (resting depth entries) fun _ _ w =>
    ∃ entries', w = resting depth entries' ∧ Grown depth entries entries'

theorem TypeParse.Reads.inside {α : Type} {p : TypeParse α} (h : TypeParse.Reads p) (s : TypeState)
    (depth : ℕ) (entries : Entries) :
    TypeParse.Leads p s (resting (depth + 1) entries) fun _ _ w => w = resting (depth + 1) entries := by
  refine (h s (depth + 1) entries).mono fun a t w hw => ?_
  obtain ⟨entries', rfl, hgrown⟩ := hw
  rw [hgrown.inside (Nat.succ_pos depth)]

section Types

variable {rounds : ℕ} {parseTypeRef : TypeParse TypeRef} (hread : TypeParse.Reads parseTypeRef)
include hread

theorem callbackParams_leads (code message : String) (s : TypeState) (depth : ℕ)
    (entries : Entries) :
    TypeParse.Leads (callbackParams rounds parseTypeRef code message) s (resting (depth + 1) entries)
      fun _ _ w => w = resting (depth + 1) entries := by
  refine Leads.peek ?_
  split_ifs
  · exact Program.Leads.pure rfl
  refine Leads.loop (fun args s => ?_) rounds []
  refine Program.Leads.bind ((hread.inside s depth entries).mono fun arg s _ hw => ?_)
  subst hw
  refine Leads.peek ?_
  split
  · rename_i hkind
    exact Leads.advancePlain hkind rfl fun t => Program.Leads.pure rfl
  · exact Program.Leads.pure rfl
  · exact Leads.error

theorem callback_leads {w w' : Outside} {depth : ℕ} {entries : Entries}
    (hfn : ∀ token : Token, token.kind = .kwFn → w.next token = some w')
    (hparen : ∀ token : Token, token.kind = .lParen → w'.next token = some (resting (depth + 1) entries))
    (code name params paren close arrow : String) (path : List String) (s : TypeState) :
    TypeParse.Leads (do
      TypeParse.expectKind .kwFn code name
      TypeParse.expectKind .lParen code paren
      let args ← callbackParams rounds parseTypeRef code params
      TypeParse.expectKind .rParen code close
      TypeParse.expectKind .arrow code arrow
      let result ← parseTypeRef
      return TypeRef.mk path (args ++ [result])) s w fun _ _ w =>
        ∃ entries', w = resting depth entries' ∧ Grown depth entries entries' := by
  refine Leads.expect _ (by simp) hfn fun s => Leads.expect _ (by simp) hparen fun s => ?_
  refine Program.Leads.bind ((callbackParams_leads hread code params s depth entries).mono
    fun args s _ hw => ?_)
  subst hw
  refine Leads.expect (resting depth entries) (by simp)
    (fun token hkind => next_closing (by rw [hkind]; rfl)) fun s => ?_
  refine Leads.expect (resting depth entries) (by simp)
    (fun token hkind => next_plain (by rw [hkind]; rfl)) fun s => ?_
  exact Program.Leads.bind ((hread s depth entries).mono fun result s w hw => Program.Leads.pure hw)

omit hread in
theorem insideFn (depth : ℕ) (entries : Entries) (token : Token) (hkind : token.kind = .kwFn) :
    (resting (depth + 1) entries).next token = some (resting (depth + 1) entries) :=
  next_inside (by simp [hkind]) (by rw [hkind]; rfl) (by rw [hkind]; rfl)

omit hread in
theorem insideParen (depth : ℕ) (entries : Entries) (token : Token)
    (hkind : token.kind = .lParen) :
    (resting (depth + 1) entries).next token = some (resting (depth + 1 + 1) entries) :=
  next_opening (by rw [hkind]; rfl)

omit hread in
theorem grown_callback (entries : Entries) (more : List ItemKind) :
    Grown 0 entries (Entries.callback { entries with kinds := entries.kinds ++ more ++ [.function] }) where
  kinds := (List.prefix_append _ _).trans (List.prefix_append _ _)
  callbacks := Nat.le_succ _
  same_iff := by simp [Entries.callback]
  inside := nofun

theorem parseExternCCallbackTypeRef_reads :
    TypeParse.Reads (parseExternCCallbackTypeRef rounds parseTypeRef) := by
  intro s depth entries
  cases depth with
  | zero =>
    refine Leads.expect ⟨0, .abi, entries⟩ (by simp)
      (fun token hkind => by simp [Outside.next, nextFree, resting, hkind]) fun s => ?_
    refine Leads.expect (resting 0 (entries.add .externBlock)) (by simp)
      (fun token hkind => by simp [Outside.next, resting, hkind]) fun s => ?_
    have hfn (token : Token) (hkind : token.kind = .kwFn) :
        (resting 0 (entries.add .externBlock)).next token =
          some ⟨0, .name, (entries.add .externBlock).add .function⟩ := by
      simp [Outside.next, nextFree, start, resting, hkind]
    have hparen (token : Token) (hkind : token.kind = .lParen) :
        (⟨0, .name, (entries.add .externBlock).add .function⟩ : Outside).next token =
          some (resting 1 ((entries.add .externBlock).add .function).callback) := by
      simp [Outside.next, resting, hkind]
    refine Program.Leads.mono (callback_leads hread hfn hparen _ _ _ _ _ _ _ s) fun a t w hw => ?_
    obtain ⟨entries', rfl, hgrown⟩ := hw
    exact ⟨entries', rfl, (grown_callback entries [.externBlock]).trans hgrown⟩
  | succ depth =>
    refine Leads.expect (resting (depth + 1) entries) (by simp)
      (fun token hkind => next_inside (by simp [hkind]) (by rw [hkind]; rfl) (by rw [hkind]; rfl)) fun s => ?_
    refine Leads.expect (resting (depth + 1) entries) (by simp)
      (fun token hkind => next_plain (by rw [hkind]; rfl)) fun s => ?_
    exact callback_leads hread (insideFn depth entries) (insideParen depth entries) _ _ _ _ _ _ _ s

theorem parseTaskCallbackTypeRef_reads :
    TypeParse.Reads (parseTaskCallbackTypeRef rounds parseTypeRef) := by
  intro s depth entries
  refine Leads.expect (resting depth entries) (by simp)
    (fun token hkind => next_plain (by rw [hkind]; rfl)) fun s => ?_
  cases depth with
  | zero =>
    have hfn (token : Token) (hkind : token.kind = .kwFn) :
        (resting 0 entries).next token = some ⟨0, .name, entries.add .function⟩ := by
      simp [Outside.next, nextFree, start, resting, hkind]
    have hparen (token : Token) (hkind : token.kind = .lParen) :
        (⟨0, .name, entries.add .function⟩ : Outside).next token =
          some (resting 1 (entries.add .function).callback) := by
      simp [Outside.next, resting, hkind]
    refine Program.Leads.mono (callback_leads hread hfn hparen _ _ _ _ _ _ _ s) fun a t w hw => ?_
    obtain ⟨entries', rfl, hgrown⟩ := hw
    have hcallback := grown_callback entries []
    rw [List.append_nil] at hcallback
    exact ⟨entries', rfl, hcallback.trans hgrown⟩
  | succ depth =>
    exact callback_leads hread (insideFn depth entries) (insideParen depth entries) _ _ _ _ _ _ _ s

theorem typeArgRound_leads {depth : ℕ} {entries₀ entries : Entries}
    (hgrown₀ : Grown depth entries₀ entries) (args : List TypeRef) (s : TypeState) :
    TypeParse.Leads (typeArgRound parseTypeRef args) s (resting depth entries) fun _ _ w =>
      ∃ entries', w = resting depth entries' ∧ Grown depth entries₀ entries' := by
  refine Program.Leads.bind ((hread s depth entries).mono fun arg s w hw => ?_)
  obtain ⟨entries', rfl, hgrown⟩ := hw
  have hgrown := hgrown₀.trans hgrown
  refine Leads.takePendingGt fun yes s => ?_
  split_ifs
  · exact Program.Leads.pure ⟨entries', rfl, hgrown⟩
  refine Program.Leads.bind (Leads.skipNewlines (Leads.peek ?_))
  split
  · rename_i hkind
    refine Leads.advancePlain hkind rfl fun t => Program.Leads.bind (Leads.skipNewlines ?_)
    exact Program.Leads.pure ⟨entries', rfl, hgrown⟩
  · rename_i hkind
    exact Leads.advancePlain hkind rfl fun t => Program.Leads.pure ⟨entries', rfl, hgrown⟩
  · rename_i hkind
    refine Leads.advancePlain hkind rfl fun t => Leads.leavePendingGt fun t => ?_
    exact Program.Leads.pure ⟨entries', rfl, hgrown⟩
  · exact Leads.error

theorem parseTypeArgs_reads : TypeParse.Reads (parseTypeArgs rounds parseTypeRef) := by
  intro s depth entries
  refine Leads.peek ?_
  split_ifs with hkind
  · refine Leads.advancePlain hkind rfl fun s => Program.Leads.bind (Leads.skipNewlines ?_)
    refine Program.Leads.loop
      (fun _ _ w => ∃ entries', w = resting depth entries' ∧ Grown depth entries entries')
      (fun _ _ => nofun) (fun args s w hw => ?_) rounds ⟨entries, rfl, Grown.refl _ _⟩
    obtain ⟨entries', rfl, hgrown⟩ := hw
    refine (typeArgRound_leads hread hgrown args s).mono fun r t w hpost => ?_
    cases r <;> exact hpost
  · exact Program.Leads.pure ⟨entries, rfl, Grown.refl _ _⟩

theorem typeRefBody_reads : TypeParse.Reads (typeRefBody rounds parseTypeRef) := by
  intro s depth entries
  refine Leads.peek ?_
  split_ifs
  · exact parseExternCCallbackTypeRef_reads hread s depth entries
  refine Leads.ask ?_
  split_ifs
  · exact parseTaskCallbackTypeRef_reads hread s depth entries
  refine Leads.peek ?_
  split_ifs with hvoid
  · exact Leads.advancePlain hvoid rfl fun t => Program.Leads.pure ⟨entries, rfl, Grown.refl _ _⟩
  refine Program.Leads.bind ((parsePath_takesPlain rounds s depth entries).mono
    fun path s _ hw => ?_)
  subst hw
  exact Program.Leads.bind ((parseTypeArgs_reads hread s depth entries).mono
    fun args s w hw => Program.Leads.pure hw)

end Types

/-- **A type closes the brackets that it opens**, and notes entries only outside all brackets. -/
theorem parseTypeRef_reads (depth : ℕ) : TypeParse.Reads (parseTypeRef depth) := by
  induction depth with
  | zero => exact fun _ _ _ => Leads.stop
  | succ depth ih => exact typeRefBody_reads ih

end Nomo.Syntax
