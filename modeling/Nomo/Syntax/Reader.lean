import Nomo.Syntax.Outside
import Nomo.Syntax.Parser

/-!
# What the parser takes and asks

The reader of `Outside` goes along with a run of the parser, and with it the type arguments that the
parser was given where it asked for those of a call. `Reads` is what is shown of each function: it closes the
brackets that it opens, and has asked for the type arguments in its result.
-/

namespace Nomo.Syntax

open Nomo.Lib Outside

/-- What has been noted of a run. -/
structure Noted where
  outside : Outside
  asked : List (List TypeRef)

/-- The type arguments that a step gives. -/
def askedBy : Program.Step ParseInstr ParseInstr.Answer Parser → List (List TypeRef)
  | ⟨.callTypeArgs, _, answer, _⟩ => [answer]
  | _ => []

/-- What is noted of a step. -/
def Noted.step (g : Noted) (step : Program.Step ParseInstr ParseInstr.Answer Parser) : Option Noted :=
  (Program.reading (·.stream.rest) Outside.next g.outside step).map
    fun w => ⟨w, g.asked ++ askedBy step⟩

/-- What has been noted between two constructs. -/
def noted (depth : ℕ) (entries : Entries) (asked : List (List TypeRef)) : Noted :=
  ⟨resting depth entries, asked⟩

section

variable (types : ℕ)

/-- A program of the parser leads to what has been noted. -/
def Parse.Leads {α : Type} (p : Parse α) (s : Parser) (g : Noted) (post : α → Parser → Noted → Prop) : Prop :=
  Program.Leads (ParseInstr.handle types) Noted.step p s g post

/-- At the end, with the type arguments of the result. -/
def Ends {α : Type} (depth : ℕ) (entries : Entries) (asked : List (List TypeRef))
    (names : α → List (List TypeRef)) (a : α) (_ : Parser) (g : Noted) : Prop :=
  ∃ entries', g = noted depth entries' (asked ++ names a) ∧ Grown depth entries entries'

/-- A program that closes the brackets that it opens. -/
def Reads {α : Type} (p : Parse α) (names : α → List (List TypeRef)) : Prop :=
  ∀ s depth entries asked,
    Parse.Leads types p s (noted depth entries asked) (Ends depth entries asked names)

/-- A program that takes only tokens of plain kinds. -/
def Quiet {α : Type} (p : Parse α) : Prop :=
  ∀ s depth entries asked,
    Parse.Leads types p s (noted depth entries asked) fun _ _ g => g = noted depth entries asked

/-- At the end of a round of a loop; the loop may end at another depth. -/
def RoundEnds {α β : Type} (depth depth' : ℕ) (entries : Entries) (asked : List (List TypeRef))
    (names : α → List (List TypeRef)) (names' : β → List (List TypeRef)) :
    α ⊕ β → Parser → Noted → Prop
  | .inl next, s, g => Ends depth entries asked names next s g
  | .inr result, s, g => Ends depth' entries asked names' result s g

end

variable {types : ℕ} {α β : Type} {s : Parser} {g : Noted} {post : α → Parser → Noted → Prop}
  {depth depth' : ℕ} {entries entries' : Entries} {asked asked' : List (List TypeRef)}

theorem Ends.grown {names : α → List (List TypeRef)} {a : α} (h : Grown depth entries entries')
    (hends : Ends depth entries' asked names a s g) : Ends depth entries asked names a s g := by
  obtain ⟨entries'', hg, hgrown⟩ := hends
  exact ⟨entries'', hg, h.trans hgrown⟩

theorem ParseInstr.suffix (types : ℕ) (i : ParseInstr) (s : Parser) (r : i.Answer) (t : Parser)
    (h : i.handle types s = .ok (r, t)) : t.stream.rest <:+ s.stream.rest := by
  have hrun {α : Type} {p : TypeParse α} {a : α} (h : s.runTypes p = .ok (a, t)) :
      t.stream.rest <:+ s.stream.rest := by
    exact Program.input_of_run (fun s : TypeState => s.stream.rest) TypeInstr.suffix
      (Parser.runTypes_eq_ok.1 h).1
  cases i with
  | call function => exact hrun h
  | callTypeArgs =>
    simp only [handle] at h
    split_ifs at h
    · exact hrun h
    · cases h
      exact List.suffix_rfl
  | advance =>
    cases h
    rcases s.stream.advance_spec with ⟨-, hsame⟩ | ⟨-, hrest, -⟩
    · simp [hsame]
    · exact ⟨[s.stream.peek], hrest.symm⟩
  | consumeNewline =>
    cases h
    exact List.dropWhile_suffix _
  | stop reason => cases h
  | _ =>
    cases h
    exact List.suffix_rfl

/-! ## Instructions -/

namespace Parse

theorem Leads.still {i : ParseInstr} {r : i.Answer} {t : Parser}
    (hhandle : i.handle types s = .ok (r, t)) (hrest : t.stream = s.stream)
    (hasked : askedBy ⟨i, s, r, t⟩ = []) {post : i.Answer → Parser → Noted → Prop} (h : post r t g) :
    Leads types (Program.perform i) s g post := by
  refine Program.Leads.perform fun r' t' hhandle' => ?_
  obtain ⟨rfl, rfl⟩ := Prod.mk.inj (Except.ok.inj (hhandle.symm.trans hhandle'))
  refine ⟨g, ?_, h⟩
  simp [Noted.step, Program.reading, Program.taken, hrest, hasked]

theorem runTypes_reads {γ : Type} {p : TypeParse γ} {w : Outside} {a : γ} {t : Parser}
    {postTypes : γ → TypeState → Outside → Prop} (hp : TypeParse.Leads p s.typeState w postTypes)
    (hrun : s.runTypes p = .ok (a, t)) :
    ∃ w', (Program.taken (fun s : Parser => s.stream.rest) s t).foldlM Outside.next w = some w' ∧
      postTypes a t.typeState w' := by
  have hrun := (Parser.runTypes_eq_ok.1 hrun).1
  obtain ⟨w', hsteps, hpost⟩ := hp a t.typeState hrun
  rw [Program.foldlM_reading TypeInstr.suffix hrun] at hsteps
  exact ⟨w', hsteps, hpost⟩

theorem Leads.peek {f : Token → Parse α} (h : Leads types (f s.stream.peek) s g post) :
    Leads types (Parse.peek >>= f) s g post :=
  Program.Leads.bind (Leads.still (i := .peek) rfl rfl rfl h)

theorem Leads.advance {f : Unit → Parse α} {w : Outside} (heof : s.stream.peek.kind ≠ .eof)
    (hnext : g.outside.next s.stream.peek = some w) (h : ∀ t, Leads types (f ()) t ⟨w, g.asked⟩ post) :
    Leads types (Parse.advance >>= f) s g post := by
  refine Program.Leads.bind (Program.Leads.perform fun _ t hhandle => ?_)
  cases hhandle
  refine ⟨⟨w, g.asked⟩, ?_, h _⟩
  rcases s.stream.advance_spec with ⟨heof', -⟩ | ⟨-, hrest, -⟩
  · exact absurd heof' heof
  · have htaken : Program.taken (fun s : Parser => s.stream.rest) s
        { s with stream := s.stream.advance } = [s.stream.peek] := Program.taken_eq hrest
    rw [Noted.step, Program.reading, htaken, List.foldlM_cons, hnext]
    simp [askedBy]

theorem Leads.stop {reason : Stop} : Leads types (Parse.stop reason : Parse α) s g post := nofun

theorem Leads.errorAt {token : Token} {code message : String} {length : ℕ} :
    Leads types (Parse.errorAt token code message length : Parse α) s g post := Leads.stop

theorem Leads.error {code message : String} {length : Token → ℕ} :
    Leads types (Parse.error code message length : Parse α) s g post := Leads.peek Leads.stop

theorem Leads.ask {question : Lookahead} {f : Bool → Parse α}
    (h : ∀ yes, Leads types (f yes) s g post) : Leads types (Parse.ask question >>= f) s g post :=
  Program.Leads.bind (Leads.still (i := .ask question) rfl rfl rfl (h _))

theorem Leads.askIf {question : Lookahead} {p q : Parse α} (hp : Leads types p s g post)
    (hq : Leads types q s g post) :
    Leads types (Parse.ask question >>= fun yes => if yes = true then p else q) s g post := by
  refine Leads.ask fun yes => ?_
  split_ifs
  · exact hp
  · exact hq

theorem Leads.nextIs {kind : TokenKind} {f : Bool → Parse α}
    (h : Leads types (f (decide (s.stream.peek.kind = kind))) s g post) :
    Leads types (Parse.nextIs kind >>= f) s g post :=
  Program.Leads.bind (Leads.peek (Program.Leads.pure h))

theorem Leads.take {kind : TokenKind} {f : Bool → Parse α} (heof : kind ≠ .eof)
    (htrue : ∀ token t, token.kind = kind → ∃ w, g.outside.next token = some w ∧
      Leads types (f true) t ⟨w, g.asked⟩ post)
    (hfalse : Leads types (f false) s g post) : Leads types (Parse.take kind >>= f) s g post := by
  refine Program.Leads.bind (Leads.peek ?_)
  split_ifs with hkind
  · obtain ⟨w, hnext, -⟩ := htrue _ s hkind
    refine Leads.advance (by rwa [hkind]) hnext fun t => Program.Leads.pure ?_
    obtain ⟨w', hnext', hlead⟩ := htrue _ t hkind
    obtain rfl := Option.some.inj (hnext.symm.trans hnext')
    exact hlead
  · exact Program.Leads.pure hfalse

theorem Leads.skipNewlines {f : Unit → Parse α} (h : ∀ t, Leads types (f ()) t (noted depth entries asked) post) :
    Leads types (Parse.skipNewlines >>= f) s (noted depth entries asked) post := by
  refine Program.Leads.bind (Program.Leads.perform fun _ t hhandle => ?_)
  cases hhandle
  refine ⟨_, ?_, h _⟩
  have htaken : Program.taken (fun s : Parser => s.stream.rest) s
      { s with stream := s.stream.consumeNewline } = s.stream.rest.takeWhile (·.kind = .newline) :=
    Program.taken_eq (List.takeWhile_append_dropWhile ..).symm
  rw [Noted.step, Program.reading, htaken, noted, plain_newlines fun token htoken => by
    simpa using List.mem_takeWhile_imp htoken]
  simp [askedBy]

theorem Leads.call (function : TypeCall) {postTypes : function.Answer → TypeState → Outside → Prop}
    (h : TypeParse.Leads (function.program types) s.typeState g.outside postTypes) :
    Leads types (Program.perform (ParseInstr.call function)) s g fun a t g' =>
      postTypes a t.typeState g'.outside ∧ g'.asked = g.asked := by
  refine Program.Leads.perform fun a t hhandle => ?_
  obtain ⟨w, hread, hpost⟩ := runTypes_reads h hhandle
  refine ⟨⟨w, g.asked⟩, ?_, hpost, rfl⟩
  rw [Noted.step, Program.reading, hread]
  simp [askedBy]

theorem Leads.callTypeArgs :
    Leads types Parse.callTypeArgs s (noted depth entries asked) fun typeArgs _ g =>
      ∃ entries', g = noted depth entries' (asked ++ [typeArgs]) ∧ Grown depth entries entries' := by
  refine Program.Leads.perform fun typeArgs t hhandle => ?_
  simp only [ParseInstr.handle] at hhandle
  split_ifs at hhandle
  · obtain ⟨w, hread, entries', rfl, hgrown⟩ := runTypes_reads
      (parseTypeArgs_reads (parseTypeRef_reads types) s.typeState depth entries) hhandle
    refine ⟨_, ?_, entries', rfl, hgrown⟩
    simp only [Noted.step, Program.reading, noted]
    rw [hread]
    rfl
  · cases hhandle
    refine ⟨_, ?_, entries, rfl, Grown.refl _ _⟩
    simp [Noted.step, Program.reading, noted, askedBy]

/-! ## Functions in sequence -/

theorem Leads.done {a : α} {names : α → List (List TypeRef)} (h : asked' = asked ++ names a) :
    Leads types (pure a) s (noted depth entries asked') (Ends depth entries asked names) :=
  Program.Leads.pure ⟨entries, by rw [h], Grown.refl _ _⟩

theorem Leads.reads {p : Parse β} {f : β → Parse α} {names : β → List (List TypeRef)}
    {names' : α → List (List TypeRef)} (hp : Reads types p names)
    (h : ∀ b t entries', Leads types (f b) t (noted depth entries' (asked' ++ names b))
      (Ends depth entries' asked names')) :
    Leads types (p >>= f) s (noted depth entries asked') (Ends depth entries asked names') := by
  refine Program.Leads.bind ((hp s depth entries asked').mono fun b t _ hends => ?_)
  obtain ⟨entries', rfl, hgrown⟩ := hends
  exact (h b t entries').mono fun a t g hends => hends.grown hgrown

section Rounds

variable {γ : Type} {names : α → List (List TypeRef)} {names' : γ → List (List TypeRef)}

theorem RoundEnds.grown {r : α ⊕ γ} (hdepth : depth' ≤ depth) (h : Grown depth entries entries')
    (hends : RoundEnds depth depth' entries' asked names names' r s g) :
    RoundEnds depth depth' entries asked names names' r s g := by
  cases r with
  | inl next => exact Ends.grown (s := s) h hends
  | inr result =>
    exact Ends.grown (s := s) { h with inside := fun hpos => h.inside (hpos.trans_le hdepth) } hends

theorem Leads.goOn {a : α} (h : asked' = asked ++ names a) :
    Leads types (pure (.inl a)) s (noted depth entries asked')
      (RoundEnds depth depth' entries asked names names') :=
  Program.Leads.pure ⟨entries, by rw [h], Grown.refl _ _⟩

theorem Leads.finish {c : γ} (h : asked' = asked ++ names' c) :
    Leads types (pure (.inr c)) s (noted depth' entries asked')
      (RoundEnds depth depth' entries asked names names') :=
  Program.Leads.pure ⟨entries, by rw [h], Grown.refl _ _⟩

theorem Leads.readsRound {p : Parse β} {f : β → Parse (α ⊕ γ)} {names'' : β → List (List TypeRef)}
    (hdepth : depth' ≤ depth) (hp : Reads types p names'')
    (h : ∀ b t entries', Leads types (f b) t (noted depth entries' (asked' ++ names'' b))
      (RoundEnds depth depth' entries' asked names names')) :
    Leads types (p >>= f) s (noted depth entries asked')
      (RoundEnds depth depth' entries asked names names') := by
  refine Program.Leads.bind ((hp s depth entries asked').mono fun b t _ hends => ?_)
  obtain ⟨entries', rfl, hgrown⟩ := hends
  exact (h b t entries').mono fun a t g hends => RoundEnds.grown hdepth hgrown hends

end Rounds

theorem Leads.inside {p : Parse β} {f : β → Parse α} {names : β → List (List TypeRef)}
    (hp : Reads types p names)
    (h : ∀ b t, Leads types (f b) t (noted (depth + 1) entries (asked ++ names b)) post) :
    Leads types (p >>= f) s (noted (depth + 1) entries asked) post := by
  refine Program.Leads.bind ((hp s (depth + 1) entries asked).mono fun b t _ hends => ?_)
  obtain ⟨entries', rfl, hgrown⟩ := hends
  rw [hgrown.inside (Nat.succ_pos depth)]
  exact h b t

theorem Leads.quiet {p : Parse β} {f : β → Parse α} (hp : Quiet types p)
    (h : ∀ b t, Leads types (f b) t (noted depth entries asked) post) :
    Leads types (p >>= f) s (noted depth entries asked) post :=
  Program.Leads.bind ((hp s depth entries asked).mono fun b t _ hg => by
    subst hg
    exact h b t)

theorem Leads.loop (names : α → List (List TypeRef)) {round : α → Parse (α ⊕ β)}
    {names' : β → List (List TypeRef)} (hdepth : depth' ≤ depth)
    (hround : ∀ a s entries, Leads types (round a) s (noted depth entries (asked ++ names a))
      (RoundEnds depth depth' entries asked names names')) (rounds : ℕ) (a : α) :
    Leads types (Parse.loop round rounds a) s (noted depth entries (asked ++ names a))
      (Ends depth' entries asked names') := by
  refine Program.Leads.loop (fun a s g => Ends depth entries asked names a s g)
    (fun _ _ => nofun) (fun a s g hinv => ?_) rounds ⟨entries, rfl, Grown.refl _ _⟩
  obtain ⟨entries', rfl, hgrown⟩ := hinv
  refine (hround a s entries').mono fun r t g hends => ?_
  have hends := RoundEnds.grown hdepth hgrown hends
  cases r <;> exact hends

theorem Leads.loopNew (names : α → List (List TypeRef)) (names' : β → List (List TypeRef))
    {round : α → Parse (α ⊕ β)} {a : α} (hnew : names a = []) (hdepth : depth' ≤ depth)
    (hround : ∀ a s entries, Leads types (round a) s (noted depth entries (asked ++ names a))
      (RoundEnds depth depth' entries asked names names')) (rounds : ℕ) :
    Leads types (Parse.loop round rounds a) s (noted depth entries asked)
      (Ends depth' entries asked names') := by
  have hloop : Leads types (Parse.loop round rounds a) s (noted depth entries (asked ++ names a))
      (Ends depth' entries asked names') := Leads.loop names hdepth hround rounds a
  rwa [hnew, List.append_nil] at hloop

/-! ## The functions that types share -/

theorem quiet_of_takesPlain {function : TypeCall} (h : (function.program types).TakesPlain) :
    Quiet types (Program.perform (ParseInstr.call function)) := by
  intro s depth entries asked
  refine (Leads.call _ (h s.typeState depth entries)).mono fun a t g hg => ?_
  obtain ⟨outside, asked'⟩ := g
  obtain ⟨rfl, rfl⟩ := hg
  rfl

theorem expectIdent_quiet (message : String) : Quiet types (Parse.expectIdent message) :=
  quiet_of_takesPlain (expectIdent_takesPlain message)

theorem path_quiet : Quiet types Parse.path := quiet_of_takesPlain (parsePath_takesPlain types)

theorem importPath_quiet : Quiet types Parse.importPath :=
  quiet_of_takesPlain (parseImportPath_takesPlain types)

theorem typeRef_reads : Reads types Parse.typeRef fun _ => [] := by
  intro s depth entries asked
  have htypes : TypeParse.Leads (TypeCall.program types .typeRef) s.typeState (resting depth entries)
      fun _ _ w => ∃ entries', w = resting depth entries' ∧ Grown depth entries entries' :=
    parseTypeRef_reads types s.typeState depth entries
  refine (Leads.call _ htypes).mono fun a t g hg => ?_
  obtain ⟨outside, asked'⟩ := g
  obtain ⟨⟨entries', rfl, hgrown⟩, rfl⟩ := hg
  exact ⟨entries', by simp [noted], hgrown⟩

/-! ## Tokens of one kind -/

theorem ne_eof_of_isPlain {kind : TokenKind} (h : isPlain kind = true) : kind ≠ .eof := by
  rintro rfl
  cases h

theorem ne_eof_of_isOpening {kind : TokenKind} (h : isOpening kind = true) : kind ≠ .eof := by
  rintro rfl
  cases h

theorem ne_eof_of_isClosing {kind : TokenKind} (h : isClosing kind = true) : kind ≠ .eof := by
  rintro rfl
  cases h

section Kinds

variable {kind : TokenKind} {code message : String} {f : Unit → Parse α}

theorem Leads.advancePlain (hkind : s.stream.peek.kind = kind) (hplain : isPlain kind = true)
    (h : ∀ t, Leads types (f ()) t (noted depth entries asked) post) :
    Leads types (Parse.advance >>= f) s (noted depth entries asked) post :=
  Leads.advance (by rw [hkind]; exact ne_eof_of_isPlain hplain) (next_plain (by rwa [hkind])) h

theorem Leads.advanceOpening (hkind : s.stream.peek.kind = kind) (hopening : isOpening kind = true)
    (h : ∀ t, Leads types (f ()) t (noted (depth + 1) entries asked) post) :
    Leads types (Parse.advance >>= f) s (noted depth entries asked) post :=
  Leads.advance (by rw [hkind]; exact ne_eof_of_isOpening hopening)
    (next_opening (by rwa [hkind])) h

theorem Leads.advanceClosing (hkind : s.stream.peek.kind = kind) (hclosing : isClosing kind = true)
    (h : ∀ t, Leads types (f ()) t (noted depth entries asked) post) :
    Leads types (Parse.advance >>= f) s (noted (depth + 1) entries asked) post :=
  Leads.advance (by rw [hkind]; exact ne_eof_of_isClosing hclosing)
    (next_closing (by rwa [hkind])) h

theorem Leads.expect {w : Outside} (heof : kind ≠ .eof)
    (hnext : ∀ token : Token, token.kind = kind → g.outside.next token = some w)
    (h : ∀ t, Leads types (f ()) t ⟨w, g.asked⟩ post) :
    Leads types (Parse.expectKind kind code message >>= f) s g post := by
  have htypes : TypeParse.Leads (TypeParse.expectKind kind code message) s.typeState g.outside
      fun _ _ w' => w' = w := by
    refine TypeParse.Leads.peek ?_
    split_ifs with hkind
    · exact TypeParse.Leads.advance (by rwa [hkind]) (hnext _ hkind) fun t => rfl
    · exact TypeParse.Leads.error
  refine Program.Leads.bind ((Leads.call (.expectKind kind code message) htypes).mono
    fun _ t g' hg => ?_)
  obtain ⟨outside, asked'⟩ := g'
  obtain ⟨rfl, rfl⟩ := hg
  exact h t

theorem Leads.expectPlain (hplain : isPlain kind = true)
    (h : ∀ t, Leads types (f ()) t (noted depth entries asked) post) :
    Leads types (Parse.expectKind kind code message >>= f) s (noted depth entries asked) post :=
  Leads.expect (ne_eof_of_isPlain hplain) (fun _ hkind => next_plain (by rwa [hkind])) h

theorem Leads.expectOpening (hopening : isOpening kind = true)
    (h : ∀ t, Leads types (f ()) t (noted (depth + 1) entries asked) post) :
    Leads types (Parse.expectKind kind code message >>= f) s (noted depth entries asked) post :=
  Leads.expect (ne_eof_of_isOpening hopening) (fun _ hkind => next_opening (by rwa [hkind])) h

theorem Leads.expectClosing (hclosing : isClosing kind = true)
    (h : ∀ t, Leads types (f ()) t (noted depth entries asked) post) :
    Leads types (Parse.expectKind kind code message >>= f) s (noted (depth + 1) entries asked) post :=
  Leads.expect (ne_eof_of_isClosing hclosing) (fun _ hkind => next_closing (by rwa [hkind])) h

theorem Leads.takePlain {f : Bool → Parse α} (hplain : isPlain kind = true)
    (h : ∀ yes t, Leads types (f yes) t (noted depth entries asked) post) :
    Leads types (Parse.take kind >>= f) s (noted depth entries asked) post :=
  Leads.take (ne_eof_of_isPlain hplain)
    (fun _ t hkind => ⟨_, next_plain (by rwa [hkind]), h true t⟩) (h false s)

theorem Leads.takeOpening {f : Bool → Parse α} (hopening : isOpening kind = true)
    (htrue : ∀ t, Leads types (f true) t (noted (depth + 1) entries asked) post)
    (hfalse : Leads types (f false) s (noted depth entries asked) post) :
    Leads types (Parse.take kind >>= f) s (noted depth entries asked) post :=
  Leads.take (ne_eof_of_isOpening hopening)
    (fun _ t hkind => ⟨_, next_opening (by rwa [hkind]), htrue t⟩) hfalse

theorem Leads.takeClosing {f : Bool → Parse α} (hclosing : isClosing kind = true)
    (htrue : ∀ t, Leads types (f true) t (noted depth entries asked) post)
    (hfalse : Leads types (f false) s (noted (depth + 1) entries asked) post) :
    Leads types (Parse.take kind >>= f) s (noted (depth + 1) entries asked) post :=
  Leads.take (ne_eof_of_isClosing hclosing)
    (fun _ t hkind => ⟨_, next_closing (by rwa [hkind]), htrue t⟩) hfalse

end Kinds

/-! ## Functions that take no brackets -/

theorem expectNewline_quiet (message : String) : Quiet types (Parse.expectNewline message) := by
  intro s depth entries asked
  refine Leads.peek ?_
  split
  · exact Leads.skipNewlines fun t => Program.Leads.pure rfl
  · exact Program.Leads.pure rfl
  · exact Leads.error

theorem skipNewlines_quiet : Quiet types Parse.skipNewlines := by
  intro s depth entries asked
  exact Leads.skipNewlines (f := fun _ => pure ()) fun t => Program.Leads.pure rfl

theorem allowStructLiterals_quiet : Quiet types Parse.allowStructLiterals :=
  fun _ _ _ _ => Leads.still (i := .allowStructLiterals) rfl rfl rfl rfl

theorem setAllowStructLiterals_quiet (value : Bool) : Quiet types (Parse.setAllowStructLiterals value) :=
  fun _ _ _ _ => Leads.still (i := .setAllowStructLiterals value) rfl rfl rfl rfl

theorem implSelfType_quiet : Quiet types Parse.implSelfType :=
  fun _ _ _ _ => Leads.still (i := .implSelfType) rfl rfl rfl rfl

theorem setImplSelfType_quiet (value : Option TypeRef) : Quiet types (Parse.setImplSelfType value) :=
  fun _ _ _ _ => Leads.still (i := .setImplSelfType value) rfl rfl rfl rfl

end Parse

end Nomo.Syntax
