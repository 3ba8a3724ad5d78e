import Nomo.Syntax.SourceFile
import Nomo.Syntax.StmtReads

/-!
# What is read with a declaration

Outside all brackets, each declaration is noted as one item of its kind, and nothing else but callback
types is (`itemParser_reads`).
-/

namespace Nomo.Syntax

open Nomo.Lib Outside Parse

variable {types : ℕ} {r : Recursive}

/-! ## Inside brackets -/

/-- A program that closes the brackets that it opens, where there are open brackets. -/
def ReadsInside {α : Type} (types : ℕ) (p : Parse α) (names : α → List (List TypeRef)) : Prop :=
  ∀ s depth entries asked, Leads types p s (noted (depth + 1) entries asked)
    fun a _ g => g = noted (depth + 1) entries (asked ++ names a)

/-- A program that closes one more bracket than it opens. -/
def ReadsClosing {α : Type} (types : ℕ) (p : Parse α) (names : α → List (List TypeRef)) : Prop :=
  ∀ s depth entries asked, Leads types p s (noted (depth + 1) entries asked)
    (Ends depth entries asked names)

section

variable {α β : Type} {s : Parser} {post : α → Parser → Noted → Prop} {depth : ℕ} {entries : Entries}
  {asked : List (List TypeRef)} {kind : TokenKind}

theorem readsInside_of_reads {p : Parse α} {names : α → List (List TypeRef)} (h : Reads types p names) :
    ReadsInside types p names := by
  intro s depth entries asked
  refine (h s (depth + 1) entries asked).mono fun a t g hends => ?_
  obtain ⟨entries', rfl, hgrown⟩ := hends
  rw [hgrown.inside (Nat.succ_pos depth)]

theorem Leads.readsInside {p : Parse β} {f : β → Parse α} {names : β → List (List TypeRef)}
    (hp : ReadsInside types p names)
    (h : ∀ b t, Leads types (f b) t (noted (depth + 1) entries (asked ++ names b)) post) :
    Leads types (p >>= f) s (noted (depth + 1) entries asked) post := by
  refine Program.Leads.bind ((hp s depth entries asked).mono fun b t g hg => ?_)
  subst hg
  exact h b t

theorem Leads.closing {p : Parse β} {f : β → Parse α} {names : β → List (List TypeRef)}
    {names' : α → List (List TypeRef)} {asked' : List (List TypeRef)} (hp : ReadsClosing types p names)
    (h : ∀ b t entries', Leads types (f b) t (noted depth entries' (asked' ++ names b))
      (Ends depth entries' asked names')) :
    Leads types (p >>= f) s (noted (depth + 1) entries asked') (Ends depth entries asked names') := by
  refine Program.Leads.bind ((hp s depth entries asked').mono fun b t g hends => ?_)
  obtain ⟨entries', rfl, hgrown⟩ := hends
  exact (h b t entries').mono fun a t g hends => hends.grown hgrown

theorem Leads.expectInside {code message : String} {f : Unit → Parse α} (heof : kind ≠ .eof)
    (hopening : isOpening kind = false) (hclosing : isClosing kind = false)
    (h : ∀ t, Leads types (f ()) t (noted (depth + 1) entries asked) post) :
    Leads types (Parse.expectKind kind code message >>= f) s (noted (depth + 1) entries asked) post :=
  Leads.expect heof (fun _ hkind => next_inside (by rwa [hkind]) (by rwa [hkind]) (by rwa [hkind])) h

theorem Leads.takeInside {f : Bool → Parse α} (heof : kind ≠ .eof) (hopening : isOpening kind = false)
    (hclosing : isClosing kind = false)
    (h : ∀ yes t, Leads types (f yes) t (noted (depth + 1) entries asked) post) :
    Leads types (Parse.take kind >>= f) s (noted (depth + 1) entries asked) post :=
  Leads.take heof
    (fun _ t hkind => ⟨_, next_inside (by rwa [hkind]) (by rwa [hkind]) (by rwa [hkind]), h true t⟩) (h false s)

end

/-! ## Attributes -/

theorem attributeBody_reads (token : Token) (attributes : DeclarationAttributes) :
    Reads types (attributeBody token attributes) fun _ => [] := by
  intro s depth entries asked
  refine Leads.quiet (expectIdent_quiet _) fun name s => ?_
  split_ifs
  · exact Leads.error
  · exact Leads.done (by simp)
  · exact Leads.error
  · refine Leads.expectOpening rfl fun s => Leads.quiet (expectIdent_quiet _) fun representation s => ?_
    split_ifs
    · exact Leads.expectClosing rfl fun s => Leads.done (by simp)
    · exact Leads.error
  · exact Leads.errorAt

theorem parseDeclarationAttributes_reads :
    Reads types (parseDeclarationAttributes r) fun _ => [] := by
  intro s depth entries asked
  refine Leads.loopNew (fun _ => []) _ rfl le_rfl (fun attributes s entries => ?_) r.rounds
  refine Leads.peek ?_
  split_ifs with hkind
  · refine Leads.advancePlain hkind rfl fun s => Leads.expectOpening rfl fun s => ?_
    refine Leads.inside (attributeBody_reads _ attributes) fun attributes s => ?_
    refine Leads.expectClosing rfl fun s => Leads.quiet (expectNewline_quiet _) fun _ s => ?_
    exact Leads.skipNewlines fun s => Leads.goOn (by simp)
  · exact Leads.finish (by simp)

/-! ## Parts of declarations -/

theorem parseTypeParams_reads (allowBounds : Bool) :
    Reads types (parseTypeParams r allowBounds) fun _ => [] := by
  intro s depth entries asked
  refine Leads.takePlain rfl fun yes s => ?_
  split_ifs
  · refine Leads.loopNew (fun _ => []) _ rfl le_rfl (fun params s entries => ?_) r.rounds
    refine Leads.quiet (expectIdent_quiet _) fun name s => ?_
    split_ifs
    · exact Leads.error
    have hbound : Reads types (typeParamBound allowBounds name params.bounds) fun _ => [] := by
      intro s depth entries asked
      refine Leads.nextIs ?_
      split_ifs with hkind
      · refine Leads.advancePlain (of_decide_eq_true hkind) rfl fun s => ?_
        exact Leads.reads typeRef_reads fun interface s entries => Leads.done (by simp)
      · exact Leads.error
      · exact Leads.done (by simp)
    refine Leads.readsRound le_rfl hbound fun bounds s entries => Leads.peek ?_
    split
    · rename_i hkind
      exact Leads.advancePlain hkind rfl fun s => Leads.goOn (by simp)
    · rename_i hkind
      exact Leads.advancePlain hkind rfl fun s => Leads.finish (by simp)
    · exact Leads.error
  · exact Leads.done (by simp)

theorem paramType_reads (allowBareSelf : Bool) (name : String) :
    Reads types (paramType allowBareSelf name) fun _ => [] := by
  intro s depth entries asked
  refine Leads.quiet implSelfType_quiet fun selfType s => ?_
  split_ifs
  · refine Leads.takePlain rfl fun yes s => ?_
    split_ifs
    · exact typeRef_reads s depth entries asked
    · exact Leads.done (by simp)
  · exact Leads.expectPlain rfl fun s => typeRef_reads s depth entries asked

theorem parseParamsWithBareSelf_reads (allowBareSelf : Bool) :
    ReadsClosing types (parseParamsWithBareSelf r allowBareSelf) fun _ => [] := by
  intro s depth entries asked
  refine Leads.takeClosing rfl (fun s => Leads.done (by simp)) ?_
  refine Leads.loopNew (fun _ => []) _ rfl (Nat.le_succ depth) (fun params s entries => ?_) r.rounds
  refine Leads.takePlain rfl fun mutable s => Leads.quiet (expectIdent_quiet _) fun name s => ?_
  refine Leads.readsRound (Nat.le_succ depth) (paramType_reads allowBareSelf name) fun type s entries => ?_
  refine Leads.peek ?_
  split
  · rename_i hkind
    exact Leads.advancePlain hkind rfl fun s => Leads.goOn (by simp)
  · rename_i hkind
    exact Leads.advanceClosing hkind rfl fun s => Leads.finish (by simp)
  · exact Leads.error

theorem returnType_reads : Reads types returnType fun _ => [] := by
  intro s depth entries asked
  refine Leads.takePlain rfl fun yes s => ?_
  split_ifs
  · exact typeRef_reads s depth entries asked
  · exact Leads.done (by simp)

theorem parseFunctionSignature_reads
    (fnCode fnMessage nameMessage parenCode parenMessage : String) (allowBareSelf : Bool) :
    ReadsInside types
      (parseFunctionSignature r fnCode fnMessage nameMessage parenCode parenMessage allowBareSelf)
      fun _ => [] := by
  intro s depth entries asked
  refine Leads.peek (Leads.takeInside (by simp) rfl rfl fun isSuspend s => ?_)
  refine Leads.expectInside (by simp) rfl rfl fun s => Leads.quiet (expectIdent_quiet _) fun name s => ?_
  refine Leads.inside (parseTypeParams_reads false) fun typeParams s => Leads.expectOpening rfl fun s => ?_
  refine Program.Leads.bind ((parseParamsWithBareSelf_reads allowBareSelf s (depth + 1) entries _).mono
    fun params s g hends => ?_)
  obtain ⟨entries', rfl, hgrown⟩ := hends
  rw [hgrown.inside (Nat.succ_pos depth)]
  exact Leads.inside returnType_reads fun returnType s => Program.Leads.pure (by simp)

/-! ## Bodies -/

theorem memberLoop_reads {β : Type} {member : Parse β} {names : β → List (List TypeRef)}
    (hmember : ReadsInside types member names) (code message : String) :
    ReadsClosing types (loop (memberRound member code message) r.rounds [])
      fun members => members.flatMap names := by
  intro s depth entries asked
  refine Leads.loopNew (fun members => members.flatMap names) _ rfl (Nat.le_succ depth)
    (fun members s entries => ?_) r.rounds
  refine Leads.skipNewlines fun s => Leads.peek ?_
  split
  · rename_i hkind
    exact Leads.advanceClosing hkind rfl fun s => Leads.skipNewlines fun s => Leads.finish rfl
  · exact Leads.error
  · exact Leads.readsInside hmember fun next s => Leads.goOn (by simp)

theorem enumVariant_reads : ReadsInside types enumVariant fun _ => [] := by
  intro s depth entries asked
  refine Leads.peek (Leads.quiet (expectIdent_quiet _) fun name s => ?_)
  refine Program.Leads.bind (Leads.takeOpening rfl (fun s => ?_) (Program.Leads.pure ?_))
  · refine Leads.inside typeRef_reads fun typeRef s => Leads.expectClosing rfl fun s => ?_
    refine Program.Leads.pure (Leads.takePlain rfl fun _ s => ?_)
    exact Leads.quiet (expectNewline_quiet _) fun _ s => Program.Leads.pure (by simp)
  · refine Leads.takePlain rfl fun _ s => ?_
    exact Leads.quiet (expectNewline_quiet _) fun _ s => Program.Leads.pure (by simp)

theorem structField_reads : ReadsInside types structField fun _ => [] := by
  intro s depth entries asked
  refine Leads.peek (Leads.takeInside (by simp) rfl rfl fun isPublic s => ?_)
  refine Leads.quiet (expectIdent_quiet _) fun name s => Leads.expectPlain rfl fun s => ?_
  refine Leads.inside typeRef_reads fun typeRef s => ?_
  exact Leads.quiet (expectNewline_quiet _) fun _ s => Program.Leads.pure (by simp)

theorem signatureLoop_reads {starts : TokenKind → Bool} {signature : Parse FunctionSignature}
    (hsignature : ReadsInside types signature fun _ => [])
    (eofCode eofMessage otherCode otherMessage : String) :
    ReadsClosing types
      (loop (signatureRound starts signature eofCode eofMessage otherCode otherMessage) r.rounds [])
      fun _ => [] := by
  intro s depth entries asked
  refine Leads.loopNew (fun _ => []) _ rfl (Nat.le_succ depth)
    (fun signatures s entries => ?_) r.rounds
  refine Leads.skipNewlines fun s => Leads.peek ?_
  split_ifs with hclose hstarts
  · exact Leads.advanceClosing hclose rfl fun s => Leads.skipNewlines fun s => Leads.finish (by simp)
  · exact Leads.readsInside hsignature fun next s => Leads.goOn (by simp)
  all_goals exact Leads.error

/-- What a function asks for. -/
abbrev Function.asked (function : Function) : List (List TypeRef) := function.body.flatMap Stmt.asked

/-- What an item asks for. -/
def Item.asked : Item → List (List TypeRef)
  | .impl item => item.methods.flatMap Function.asked
  | .const item => item.value.asked
  | .function item => item.asked
  | _ => []

/-- The kind of an item. -/
def Item.kind : Item → ItemKind
  | .struct _ => .struct
  | .«enum» _ => .«enum»
  | .interface _ => .interface
  | .externOpaque _ => .externOpaque
  | .externBlock _ => .externBlock
  | .impl _ => .impl
  | .const _ => .const
  | .function _ => .function

section

variable (hr : AllRead types r)
include hr

theorem bodyStmt_reads : Reads types (bodyStmt r) Stmt.asked := by
  intro s depth entries asked
  refine Leads.reads hr.parseStmt fun stmt s entries => ?_
  exact Leads.quiet (expectNewline_quiet _) fun _ s => Leads.done rfl

omit hr in
theorem expectFunctionName_leads {w w' : Outside} {asked : List (List TypeRef)}
    (hname : ∀ token, (∃ value, token.kind = .ident value) ∨ token.kind = .kwPanic →
      w.next token = some w') (s : Parser) :
    Leads types expectFunctionName s ⟨w, asked⟩ fun _ _ g => g = ⟨w', asked⟩ := by
  refine Leads.peek ?_
  split
  · rename_i value hkind
    exact Leads.advance (by rw [hkind]; simp) (hname _ (.inl ⟨value, hkind⟩)) fun s =>
      Program.Leads.pure rfl
  · rename_i hkind
    exact Leads.advance (by rw [hkind]; simp) (hname _ (.inr hkind)) fun s => Program.Leads.pure rfl
  · exact Leads.error

theorem finishFunction_leads {w : Outside} {depth : ℕ} {entries : Entries} {asked : List (List TypeRef)}
    (hname : ∀ token, (∃ value, token.kind = .ident value) ∨ token.kind = .kwPanic →
      w.next token = some (resting depth entries)) (functionToken : Token)
    (isPublic isTest isSuspend : Bool) (s : Parser) :
    Leads types (finishFunction r functionToken isPublic isTest isSuspend) s ⟨w, asked⟩
      (Ends depth entries asked Function.asked) := by
  refine Program.Leads.bind ((expectFunctionName_leads hname s).mono fun name s g hg => ?_)
  subst hg
  show Leads types _ s (noted depth entries asked) _
  refine Leads.reads (parseTypeParams_reads true) fun typeParams s entries => ?_
  refine Leads.expectOpening rfl fun s => ?_
  refine Leads.closing (parseParamsWithBareSelf_reads false) fun params s entries => ?_
  refine Leads.reads returnType_reads fun returnType s entries => Leads.expectOpening rfl fun s => ?_
  refine Leads.quiet (expectNewline_quiet _) fun _ s => ?_
  refine Leads.closing (memberLoop_reads (readsInside_of_reads (bodyStmt_reads hr)) _ _)
    fun body s entries => ?_
  exact Leads.done (by simp)

theorem parseFunction_leads (asked : List (List TypeRef)) {w w' : Outside} {depth : ℕ} {entries : Entries}
    (hsuspend : ∀ token, token.kind = .kwSuspend → ∃ w₁, w.next token = some w₁ ∧
      ∀ token, token.kind = .kwFn → w₁.next token = some w')
    (hfn : ∀ token, token.kind = .kwFn → w.next token = some w')
    (hname : ∀ token, (∃ value, token.kind = .ident value) ∨ token.kind = .kwPanic →
      w'.next token = some (resting depth entries)) (isPublic isTest : Bool) (s : Parser) :
    Leads types (parseFunction r isPublic isTest) s ⟨w, asked⟩
      (Ends depth entries asked Function.asked) := by
  refine Leads.peek (Leads.take (by simp) (fun token s hkind => ?_) ?_)
  · obtain ⟨w₁, hnext, hfn⟩ := hsuspend token hkind
    refine ⟨w₁, hnext, Leads.expect (by simp) hfn fun s => ?_⟩
    exact finishFunction_leads hr hname _ isPublic isTest true s
  · refine Leads.expect (by simp) hfn fun s => ?_
    exact finishFunction_leads hr hname _ isPublic isTest false s

theorem method_reads (isPublic isTest : Bool) :
    ReadsInside types (parseFunction r isPublic isTest) Function.asked := by
  intro s depth entries asked
  have hinside (token : Token) (kind : TokenKind) (heof : kind ≠ .eof) (hopening : isOpening kind = false)
      (hclosing : isClosing kind = false) (hkind : token.kind = kind) :
      (resting (depth + 1) entries).next token = some (resting (depth + 1) entries) :=
    next_inside (by rwa [hkind]) (by rwa [hkind]) (by rwa [hkind])
  have hsuspend (token : Token) (hkind : token.kind = .kwSuspend) :
      ∃ w, (resting (depth + 1) entries).next token = some w ∧
        ∀ token, token.kind = .kwFn → w.next token = some (resting (depth + 1) entries) :=
    ⟨_, hinside token .kwSuspend nofun rfl rfl hkind, fun token => hinside token .kwFn nofun rfl rfl⟩
  have hname (token : Token) (hkind : (∃ value, token.kind = .ident value) ∨ token.kind = .kwPanic) :
      (resting (depth + 1) entries).next token = some (resting (depth + 1) entries) := by
    rcases hkind with ⟨value, hkind⟩ | hkind
    · exact hinside token (.ident value) nofun rfl rfl hkind
    · exact hinside token .kwPanic nofun rfl rfl hkind
  have hlead := parseFunction_leads hr asked hsuspend
    (fun token => hinside token .kwFn nofun rfl rfl) hname isPublic isTest s
  refine hlead.mono fun function s g hends => ?_
  obtain ⟨entries', rfl, hgrown⟩ := hends
  rw [hgrown.inside (Nat.succ_pos depth)]

/-! ## Items -/

omit hr in
/-- Where an item can start: after another one, or after `pub`. -/
def Starts (w : Outside) (entries : Entries) : Prop := w = resting 0 entries ∨ w = ⟨0, .item, entries⟩

omit hr in
theorem Starts.next {w w' : Outside} {entries : Entries} {token : Token} {kind : TokenKind}
    (h : Starts w entries) (hkind : token.kind = kind)
    (hstart : (resting 0 entries).start kind = some w') : w.next token = some w' := by
  rcases h with rfl | rfl
  · rw [← hstart]
    subst hkind
    revert hstart
    unfold Outside.next resting
    cases token.kind with
    | _ => simp [Outside.start, nextFree]
  · rw [← hstart]
    subst hkind
    rfl

variable {w : Outside} {entries : Entries} {asked : List (List TypeRef)}

omit hr in
theorem parseEnum_leads (h : Starts w entries) (isPublic : Bool) (s : Parser) :
    Leads types (parseEnum r isPublic) s ⟨w, asked⟩ (Ends 0 (entries.add .«enum») asked fun _ => []) := by
  refine Leads.peek (Leads.expect (by simp) (fun token hkind => h.next hkind rfl) fun s => ?_)
  show Leads types _ s (noted 0 (entries.add .«enum») asked) _
  refine Leads.quiet (expectIdent_quiet _) fun name s => ?_
  refine Leads.reads (parseTypeParams_reads false) fun typeParams s entries => ?_
  refine Leads.expectOpening rfl fun s => Leads.quiet (expectNewline_quiet _) fun _ s => ?_
  exact Leads.closing (memberLoop_reads enumVariant_reads _ _) fun variants s entries =>
    Leads.done (by simp)

omit hr in
theorem parseStruct_leads (h : Starts w entries) (isPublic reprC : Bool) (s : Parser) :
    Leads types (parseStruct r isPublic reprC) s ⟨w, asked⟩
      (Ends 0 (entries.add .struct) asked fun _ => []) := by
  refine Leads.peek (Leads.expect (by simp) (fun token hkind => h.next hkind rfl) fun s => ?_)
  show Leads types _ s (noted 0 (entries.add .struct) asked) _
  refine Leads.quiet (expectIdent_quiet _) fun name s => ?_
  refine Leads.reads (parseTypeParams_reads false) fun typeParams s entries => ?_
  refine Leads.expectOpening rfl fun s => Leads.quiet (expectNewline_quiet _) fun _ s => ?_
  exact Leads.closing (memberLoop_reads structField_reads _ _) fun fields s entries =>
    Leads.done (by simp)

omit hr in
theorem parseInterface_leads (h : Starts w entries) (isPublic : Bool) (s : Parser) :
    Leads types (parseInterface r isPublic) s ⟨w, asked⟩
      (Ends 0 (entries.add .interface) asked fun _ => []) := by
  have hsignature : ReadsInside types (parseInterfaceMethodSignature r) fun _ => [] := by
    intro s depth entries asked
    refine Leads.readsInside (parseFunctionSignature_reads _ _ _ _ _ _) fun signature s => ?_
    exact Leads.quiet (expectNewline_quiet _) fun _ s => Program.Leads.pure (by simp)
  refine Leads.peek (Leads.expect (by simp) (fun token hkind => h.next hkind rfl) fun s => ?_)
  show Leads types _ s (noted 0 (entries.add .interface) asked) _
  refine Leads.quiet (expectIdent_quiet _) fun name s => ?_
  refine Leads.expectOpening rfl fun s => Leads.quiet (expectNewline_quiet _) fun _ s => ?_
  exact Leads.closing (signatureLoop_reads hsignature _ _ _ _) fun methods s entries =>
    Leads.done (by simp)

omit hr in
theorem parseExternBlock_leads (s : Parser) :
    Leads types (parseExternBlock r) s (noted 0 entries asked)
      (Ends 0 (entries.add .externBlock) asked fun _ => []) := by
  have hsignature : ReadsInside types (parseExternFunctionSignature r) fun _ => [] := by
    intro s depth entries asked
    refine Leads.readsInside (parseFunctionSignature_reads _ _ _ _ _ _) fun signature s => ?_
    exact Leads.quiet (expectNewline_quiet _) fun _ s => Program.Leads.pure (by simp)
  have hforeign (token : Token) (hkind : token.kind = .kwExtern) :
      (resting 0 entries).next token = some ⟨0, .abi, entries⟩ := by
    simp [Outside.next, nextFree, resting, hkind]
  refine Leads.peek (Leads.expect (by simp) hforeign fun s => ?_)
  refine Leads.take (by simp) (fun token s hkind => ?_) Leads.error
  refine ⟨resting 0 (entries.add .externBlock), by simp [Outside.next, resting, hkind], ?_⟩
  show Leads types _ s (noted 0 (entries.add .externBlock) asked) _
  refine Leads.expectOpening rfl fun s => Leads.quiet (expectNewline_quiet _) fun _ s => ?_
  exact Leads.closing (signatureLoop_reads hsignature _ _ _ _) fun functions s entries =>
    Leads.done (by simp)

omit hr in
theorem expectIdent_run {message value : String} {s t : TypeState}
    (h : (TypeParse.expectIdent message).run TypeInstr.handle s = .ok (value, t)) :
    s.stream.peek.kind = .ident value := by
  obtain ⟨token, u, hpeek, hrest⟩ := Program.run_bind_eq_ok.1 h
  cases hpeek
  split at hrest
  · rename_i name hkind
    obtain ⟨_, u, -, hpure⟩ := Program.run_bind_eq_ok.1 hrest
    cases hpure
    exact hkind
  · cases hrest

omit hr in
theorem Leads.expectWord (w' : Outside) {α : Type} {word : String} {message : String}
    {f : Parse α} {stop : String → Parse α} {s : Parser} {post : α → Parser → Noted → Prop}
    (hstop : ∀ value s g, Leads types (stop value) s g fun _ _ _ => False)
    (hnext : ∀ token, token.kind = .ident word → w.next token = some w')
    (h : ∀ s, Leads types f s ⟨w', asked⟩ post) :
    Leads types (expectIdent message >>= fun value => if value = word then f else stop value) s ⟨w, asked⟩
      post := by
  by_cases hkind : s.stream.peek.kind = .ident word
  · have htypes : TypeParse.Leads (TypeCall.program types (.expectIdent message)) s.typeState w
        fun value _ w'' => value = word ∧ w'' = w' := by
      refine TypeParse.Leads.peek ?_
      split
      · rename_i value hvalue
        obtain rfl := TokenKind.ident.inj (hvalue.symm.trans hkind)
        exact Program.Leads.bind (TypeParse.Leads.advance (by rw [hvalue]; simp) (hnext _ hvalue)
          fun t => Program.Leads.pure ⟨rfl, rfl⟩)
      · exact TypeParse.Leads.error
    refine Program.Leads.bind ((Leads.call _ htypes).mono fun value s g hg => ?_)
    obtain ⟨outside, asked'⟩ := g
    obtain ⟨⟨rfl, rfl⟩, rfl⟩ := hg
    rw [if_pos rfl]
    exact h s
  · intro a t hrun
    obtain ⟨value, u, hword, hrest⟩ := Program.run_bind_eq_ok.1 hrun
    have hvalue : value ≠ word := by
      rintro rfl
      have hhandle : s.runTypes (TypeParse.expectIdent message) = .ok (value, u) := by
        rwa [Parse.expectIdent, Program.run_perform] at hword
      unfold Parser.runTypes at hhandle
      split at hhandle
      · rename_i name v hname
        cases hhandle
        exact hkind (expectIdent_run hname)
      · cases hhandle
    rw [if_neg hvalue] at hrest
    obtain ⟨_, -, hfalse⟩ := hstop value u ⟨w, asked⟩ a t hrest
    exact hfalse.elim

omit hr in
theorem parseExternOpaqueType_leads (s : Parser) :
    Leads types parseExternOpaqueType s (noted 0 entries asked)
      (Ends 0 (entries.add .externOpaque) asked fun _ => []) := by
  have hforeign (token : Token) (hkind : token.kind = .kwExtern) :
      (resting 0 entries).next token = some ⟨0, .abi, entries⟩ := by
    simp [Outside.next, nextFree, resting, hkind]
  refine Leads.peek (Leads.expect (by simp) hforeign fun s => ?_)
  refine Leads.expectWord ⟨0, .typeWord, entries⟩ (fun _ _ _ => Leads.error)
    (fun token hkind => by simp [Outside.next, hkind]) fun s => ?_
  refine Leads.expectWord (resting 0 (entries.add .externOpaque)) (fun _ _ _ => Leads.error)
    (fun token hkind => by simp [Outside.next, resting, hkind]) fun s => ?_
  show Leads types _ s (noted 0 (entries.add .externOpaque) asked) _
  have hrelease : Quiet types releaseFunction := by
    intro s depth entries asked
    refine Leads.takePlain rfl fun yes s => ?_
    split_ifs
    · exact Leads.quiet (expectIdent_quiet _) fun name s => Program.Leads.pure rfl
    · exact Program.Leads.pure rfl
  refine Leads.quiet (expectIdent_quiet _) fun name s => Leads.quiet hrelease fun release s => ?_
  exact Leads.quiet (expectNewline_quiet _) fun _ s => Leads.done (by simp)

theorem parseImpl_leads (s : Parser) :
    Leads types (parseImpl r) s (noted 0 entries asked)
      (Ends 0 (entries.add .impl) asked fun item => item.methods.flatMap Function.asked) := by
  have himpl (token : Token) (hkind : token.kind = .kwImpl) :
      (resting 0 entries).next token = some (resting 0 (entries.add .impl)) := by
    simp [Outside.next, nextFree, resting, hkind]
  have hmethods : ReadsClosing types (loop (implRound r) r.rounds [])
      fun methods => methods.flatMap Function.asked := by
    intro s depth entries asked
    refine Leads.loopNew (fun methods => methods.flatMap Function.asked) _ rfl (Nat.le_succ depth)
      (fun methods s entries => ?_) r.rounds
    refine Leads.skipNewlines fun s => Leads.takeInside (by simp) rfl rfl fun isPublic s => Leads.peek ?_
    split
    · exact Leads.readsInside (method_reads hr isPublic false) fun method s => Leads.goOn (by simp)
    · exact Leads.readsInside (method_reads hr isPublic false) fun method s => Leads.goOn (by simp)
    · rename_i hkind
      split_ifs
      · exact Leads.error
      · exact Leads.advanceClosing hkind rfl fun s => Leads.skipNewlines fun s => Leads.finish rfl
    all_goals exact Leads.error
  have htarget (firstType : TypeRef) : Reads types (implTarget firstType) fun _ => [] := by
    intro s depth entries asked
    refine Leads.takePlain rfl fun yes s => ?_
    split_ifs
    · exact Leads.reads typeRef_reads fun typeName s entries => Leads.done (by simp)
    · exact Leads.done (by simp)
  refine Leads.expect (by simp) himpl fun s => ?_
  show Leads types _ s (noted 0 (entries.add .impl) asked) _
  refine Leads.reads typeRef_reads fun firstType s entries => ?_
  refine Leads.reads (htarget firstType) fun target s entries => ?_
  obtain ⟨interfaceName, typeName⟩ := target
  dsimp only
  split_ifs
  · refine Leads.expectOpening rfl fun s => Leads.quiet (expectNewline_quiet _) fun _ s => ?_
    refine Leads.quiet implSelfType_quiet fun previousSelf s => ?_
    refine Leads.quiet (setImplSelfType_quiet _) fun _ s => ?_
    refine Leads.closing hmethods fun methods s entries => ?_
    exact Leads.quiet (setImplSelfType_quiet _) fun _ s => Leads.done (by simp)
  · exact Leads.error

theorem parseConst_leads (h : Starts w entries) (isPublic : Bool) (s : Parser) :
    Leads types (parseConst r isPublic) s ⟨w, asked⟩
      (Ends 0 (entries.add .const) asked fun item => item.value.asked) := by
  refine Leads.peek (Leads.expect (by simp) (fun token hkind => h.next hkind rfl) fun s => ?_)
  show Leads types _ s (noted 0 (entries.add .const) asked) _
  refine Leads.quiet (expectIdent_quiet _) fun name s => Leads.expectPlain rfl fun s => ?_
  refine Leads.reads typeRef_reads fun typeRef s entries => Leads.expectPlain rfl fun s => ?_
  refine Leads.reads hr.parseExpr fun value s entries => ?_
  exact Leads.skipNewlines fun s => Leads.done (by simp)

theorem function_leads (h : Starts w entries) (isPublic isTest : Bool) (s : Parser) :
    Leads types (parseFunction r isPublic isTest) s ⟨w, asked⟩
      (Ends 0 (entries.add .function) asked Function.asked) := by
  have hsuspend (token : Token) (hkind : token.kind = .kwSuspend) :
      ∃ w₁, w.next token = some w₁ ∧ ∀ token, token.kind = .kwFn →
        w₁.next token = some ⟨0, .name, entries.add .function⟩ :=
    ⟨⟨0, .fn, entries⟩, h.next hkind rfl, fun token hfn => by simp [Outside.next, start, hfn]⟩
  have hname (token : Token) (hkind : (∃ value, token.kind = .ident value) ∨ token.kind = .kwPanic) :
      (⟨0, .name, entries.add .function⟩ : Outside).next token =
        some (resting 0 (entries.add .function)) := by
    rcases hkind with ⟨value, hkind⟩ | hkind
    all_goals simp [Outside.next, resting, hkind]
  exact parseFunction_leads hr _ hsuspend (fun token hkind => h.next hkind rfl) hname isPublic isTest s

/-- At the end of an item, which is noted as one of its kind. -/
def EndsItem (entries : Entries) (asked : List (List TypeRef)) (item : Item) (_ : Parser) (g : Noted) : Prop :=
  ∃ entries', g = noted 0 entries' (asked ++ item.asked) ∧ Grown 0 (entries.add item.kind) entries'

/-- **An item is noted once**, as one of its kind. -/
theorem itemParser_leads {attributes : DeclarationAttributes} {isPublic : Bool} {kind : TokenKind}
    {parseItem : Parse Item} (hitem : itemParser r attributes isPublic kind = some parseItem)
    (h : if isPublic then w = ⟨0, .item, entries⟩ else w = resting 0 entries) (s : Parser) :
    Leads types parseItem s ⟨w, asked⟩ (EndsItem entries asked) := by
  have hstarts : Starts w entries := by
    split_ifs at h
    · exact .inr h
    · exact .inl h
  unfold itemParser at hitem
  split at hitem
  · cases hitem
    exact Program.Leads.bind ((parseStruct_leads hstarts _ _ s).mono fun item s g hends =>
      Program.Leads.pure hends)
  · cases hitem
    exact Program.Leads.bind ((parseEnum_leads hstarts _ s).mono fun item s g hends =>
      Program.Leads.pure hends)
  · cases hitem
    exact Program.Leads.bind ((parseInterface_leads hstarts _ s).mono fun item s g hends =>
      Program.Leads.pure hends)
  · split_ifs at hitem h
    cases hitem
    subst h
    refine Leads.askIf ?_ ?_
    · exact Program.Leads.bind ((parseExternOpaqueType_leads s).mono fun item s g hends =>
        Program.Leads.pure hends)
    · exact Program.Leads.bind ((parseExternBlock_leads s).mono fun item s g hends =>
        Program.Leads.pure hends)
  · split_ifs at hitem h
    cases hitem
    subst h
    exact Program.Leads.bind ((parseImpl_leads hr s).mono fun item s g hends => Program.Leads.pure hends)
  · cases hitem
    exact Program.Leads.bind ((parseConst_leads hr hstarts _ s).mono fun item s g hends =>
      Program.Leads.pure hends)
  · cases hitem
    exact Program.Leads.bind ((function_leads hr hstarts _ _ s).mono fun item s g hends =>
      Program.Leads.pure hends)
  · cases hitem
    exact Program.Leads.bind ((function_leads hr hstarts _ _ s).mono fun item s g hends =>
      Program.Leads.pure hends)
  · cases hitem

end

end Nomo.Syntax
