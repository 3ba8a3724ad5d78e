import Nomo.Syntax.TypeRef

/-!
# The brackets of a type

The angle brackets that the tokens of a type leave open, where a `>>` closes two, and those in a pair of
parentheses are counted apart. `parseTypeRef_tracks`: a type that is read with no `>` pending leaves
as many pending as it closes brackets of the types around it, provided that it never closes a
bracket that is not open.
-/

namespace Nomo.Syntax

open Nomo.Lib

/-! ## Open brackets -/

/-- The angle brackets that are open: since the last open parenthesis, and before each. -/
structure Brackets where
  level : ℕ
  outer : List ℕ
deriving DecidableEq

namespace Brackets

/-- No open brackets. -/
def closed : Brackets := ⟨0, []⟩

/-- The brackets after a token, unless it closes one that is not open. -/
def next (b : Brackets) : TokenKind → Option Brackets
  | .less => some { b with level := b.level + 1 }
  | .greater => if 1 ≤ b.level then some { b with level := b.level - 1 } else none
  | .greaterGreater => if 2 ≤ b.level then some { b with level := b.level - 2 } else none
  | .lParen => some ⟨0, b.level :: b.outer⟩
  | .rParen =>
    match b.level, b.outer with
    | 0, level :: outer => some ⟨level, outer⟩
    | _, _ => none
  | _ => some b

/-- The brackets after tokens. -/
def after : Brackets → List Token → Option Brackets
  | b, [] => some b
  | b, token :: tokens => (b.next token.kind).bind (·.after tokens)

theorem after_append (b : Brackets) (front back : List Token) :
    b.after (front ++ back) = (b.after front).bind (·.after back) := by
  induction front generalizing b with
  | nil => rfl
  | cons token front ih =>
    simp only [List.cons_append, after]
    cases b.next token.kind with
    | none => rfl
    | some b' => exact ih b'

theorem after_newlines (b : Brackets) {tokens : List Token}
    (h : ∀ token ∈ tokens, token.kind = .newline) : b.after tokens = some b := by
  induction tokens with
  | nil => rfl
  | cons token tokens ih =>
    rw [after, h token List.mem_cons_self]
    exact ih fun token htoken => h token (List.mem_cons_of_mem _ htoken)

end Brackets

/-- The tokens close only brackets that are open. -/
def ClosesOnlyOpen (tokens : List Token) : Prop := Brackets.closed.after tokens ≠ none

/-- The brackets of the tokens balance. -/
def Balanced (tokens : List Token) : Prop := Brackets.closed.after tokens = some .closed

instance (tokens : List Token) : Decidable (Balanced tokens) :=
  inferInstanceAs (Decidable (_ = _))

/-! ## Tokens taken -/

/-- The tokens taken between two states. -/
def Took (s s' : TypeState) (tokens : List Token) : Prop :=
  s.stream.rest = tokens ++ s'.stream.rest ∧ s'.stream.eof = s.stream.eof

theorem Took.refl (s : TypeState) : Took s s [] := ⟨rfl, rfl⟩

theorem Took.trans {s t u : TypeState} {front back : List Token} (h : Took s t front)
    (h' : Took t u back) : Took s u (front ++ back) :=
  ⟨by rw [h.1, h'.1, List.append_assoc], h'.2.trans h.2⟩

theorem Took.unique {s s' : TypeState} {tokens tokens' : List Token} (h : Took s s' tokens)
    (h' : Took s s' tokens') : tokens = tokens' :=
  List.append_cancel_right (h.1.symm.trans h'.1)

theorem TypeInstr.handle_took (i : TypeInstr) {s s' : TypeState} {r : i.Answer}
    (h : i.handle s = .ok (r, s')) : ∃ tokens, Took s s' tokens := by
  cases i with
  | peek | ask question | leavePendingGt =>
    cases h
    exact ⟨[], rfl, rfl⟩
  | takePendingGt =>
    simp only [handle] at h
    split_ifs at h
    all_goals
      cases h
      exact ⟨[], rfl, rfl⟩
  | advance =>
    cases h
    rcases s.stream.advance_spec with ⟨-, hsame⟩ | ⟨-, hrest, heof⟩
    · exact ⟨[], by simp [hsame], by simp [hsame]⟩
    · exact ⟨[s.stream.peek], hrest, heof⟩
  | consumeNewline =>
    cases h
    exact ⟨_, (List.takeWhile_append_dropWhile ..).symm, rfl⟩
  | stop reason => cases h

theorem took_of_run {α : Type} {p : TypeParse α} {s s' : TypeState} {a : α}
    (h : p.run TypeInstr.handle s = .ok (a, s')) : ∃ tokens, Took s s' tokens :=
  Program.run_invariant (P := fun s s' => ∃ tokens, Took s s' tokens) (fun s => ⟨[], Took.refl s⟩)
    (fun _ _ _ ⟨_, h⟩ ⟨_, h'⟩ => ⟨_, h.trans h'⟩) (fun i _ _ _ => i.handle_took) h

/-! ## Programs and brackets -/

/-- What is known of the state and the open brackets. -/
abbrev Assertion : Type := TypeState → Brackets → Prop

/-- From where `pre` holds, a program leads to where `post` holds, if the tokens it takes close only open
brackets. -/
def Tracks {α : Type} (pre : Assertion) (p : TypeParse α) (post : α → Assertion) : Prop :=
  ∀ s b a s' tokens, pre s b → p.run TypeInstr.handle s = .ok (a, s') → Took s s' tokens →
    b.after tokens ≠ none → ∃ b', b.after tokens = some b' ∧ post a s' b'

variable {α β : Type} {pre : Assertion} {post : α → Assertion}

theorem Tracks.pure {a : α} (h : ∀ s b, pre s b → post a s b) :
    Tracks pre (pure a : TypeParse α) post := by
  intro s b _ _ tokens hpre hrun htook _
  cases hrun
  obtain rfl := htook.unique (Took.refl _)
  exact ⟨b, rfl, h s b hpre⟩

theorem Tracks.bind {p : TypeParse α} {f : α → TypeParse β} {Q : α → Assertion}
    {post : β → Assertion} (hp : Tracks pre p Q) (hf : ∀ a, Tracks (Q a) (f a) post) :
    Tracks pre (p >>= f) post := by
  intro s b a s' tokens hpre hrun htook hclosed
  obtain ⟨a', t, hp', hf'⟩ := Program.run_bind_eq_ok.1 hrun
  obtain ⟨front, hfront⟩ := took_of_run hp'
  obtain ⟨back, hback⟩ := took_of_run hf'
  obtain rfl := htook.unique (hfront.trans hback)
  rw [Brackets.after_append] at hclosed ⊢
  have hfront_closed : b.after front ≠ none := fun hnone => hclosed (by rw [hnone]; rfl)
  obtain ⟨b', hb', hmid⟩ := hp s b a' t front hpre hp' hfront hfront_closed
  rw [hb'] at hclosed ⊢
  exact hf a' t b' a s' back hmid hf' hback hclosed

theorem Tracks.mono {pre' : Assertion} {p : TypeParse α} {post' : α → Assertion}
    (h : Tracks pre' p post') (hpre : ∀ s b, pre s b → pre' s b)
    (hpost : ∀ a s b, post' a s b → post a s b) : Tracks pre p post := by
  intro s b a s' tokens hs hrun htook hclosed
  obtain ⟨b', hb', hpost'⟩ := h s b a s' tokens (hpre s b hs) hrun htook hclosed
  exact ⟨b', hb', hpost a s' b' hpost'⟩

theorem Tracks.stop {reason : Stop} : Tracks pre (TypeParse.stop reason : TypeParse α) post := by
  intro s b a s' tokens _ hrun
  cases hrun

theorem Tracks.error {code message : String} {length : Token → ℕ} :
    Tracks pre (TypeParse.error code message length : TypeParse α) post :=
  Tracks.bind (Q := fun _ _ _ => True)
    (fun s b _ s' tokens _ hrun htook _ => by
      cases hrun
      obtain rfl := htook.unique (Took.refl _)
      exact ⟨b, rfl, trivial⟩) fun _ => Tracks.stop

theorem Tracks.of_same {i : TypeInstr} {post : i.Answer → Assertion}
    (h : ∀ s b r s', pre s b → i.handle s = .ok (r, s') → s'.stream = s.stream ∧ post r s' b) :
    Tracks pre (Program.perform i) post := by
  intro s b r s' tokens hpre hrun htook _
  rw [Program.run_perform] at hrun
  obtain ⟨hstream, hpost⟩ := h s b r s' hpre hrun
  have hsame : Took s s' [] := ⟨by rw [hstream]; rfl, by rw [hstream]⟩
  obtain rfl := htook.unique hsame
  exact ⟨b, rfl, hpost⟩

theorem Tracks.peek {f : Token → TypeParse α}
    (h : ∀ token, Tracks (fun s b => pre s b ∧ s.stream.peek = token) (f token) post) :
    Tracks pre (TypeParse.peek >>= f) post :=
  Tracks.bind (Q := fun token s b => pre s b ∧ s.stream.peek = token)
    (Tracks.of_same fun s b token s' hpre hrun => by
      cases hrun
      exact ⟨rfl, hpre, rfl⟩) h

theorem Tracks.ask {question : Lookahead} {f : Bool → TypeParse α}
    (h : ∀ yes, Tracks pre (f yes) post) : Tracks pre (TypeParse.ask question >>= f) post :=
  Tracks.bind (Q := fun _ => pre)
    (Tracks.of_same fun s b yes s' hpre hrun => by
      cases hrun
      exact ⟨rfl, hpre⟩) h

/-- What is known of the counter and the open brackets. -/
abbrev Counts : Type := ℕ → Brackets → Prop

/-- What is known does not depend on the tokens ahead. -/
def On (P : Counts) : Assertion := fun s b => P s.pendingTypeGt b

/-- What is known after a token. -/
def Counts.after (P : Counts) (kind : TokenKind) : Counts :=
  fun pending b' => ∃ b, P pending b ∧ b.next kind = some b'

variable {P : Counts}

theorem Tracks.advance (kind : TokenKind) (hkind : kind ≠ .eof)
    (h : ∀ s b, pre s b → On P s b ∧ s.stream.peek.kind = kind) :
    Tracks pre TypeParse.advance fun _ => On (P.after kind) := by
  intro s b r s' tokens hpre hrun htook hclosed
  obtain ⟨hP, rfl⟩ := h s b hpre
  cases hrun
  rcases s.stream.advance_spec with ⟨heof, -⟩ | ⟨-, hrest, heof⟩
  · exact absurd heof hkind
  have hone : Took s { s with stream := s.stream.advance } [s.stream.peek] := ⟨hrest, heof⟩
  obtain rfl := htook.unique hone
  simp only [Brackets.after] at hclosed ⊢
  cases hnext : b.next s.stream.peek.kind with
  | none => simp [hnext] at hclosed
  | some b' => exact ⟨b', rfl, b, hP, hnext⟩

theorem Tracks.skipNewlines : Tracks (On P) TypeParse.skipNewlines fun _ => On P := by
  intro s b r s' tokens hP hrun htook _
  cases hrun
  have htaken : Took s { s with stream := s.stream.consumeNewline }
      (s.stream.rest.takeWhile (·.kind = .newline)) :=
    ⟨(List.takeWhile_append_dropWhile ..).symm, rfl⟩
  obtain rfl := htook.unique htaken
  refine ⟨b, b.after_newlines fun token htoken => ?_, hP⟩
  simpa using List.mem_takeWhile_imp htoken

theorem Tracks.expect {kind : TokenKind} {code message : String} {length : Token → ℕ}
    (hkind : kind ≠ .eof) :
    Tracks (On P) (TypeParse.expect kind code message length) fun _ => On (P.after kind) := by
  refine Tracks.peek fun token => ?_
  split_ifs with h
  · exact Tracks.advance kind hkind fun s b hpre => ⟨hpre.1, by rw [hpre.2, h]⟩
  · exact Tracks.error

theorem Tracks.takePendingGt {f : Bool → TypeParse α}
    (htaken : Tracks (On fun pending b => P (pending + 1) b) (f true) post)
    (hnone : Tracks (On fun pending b => pending = 0 ∧ P 0 b) (f false) post) :
    Tracks (On P) (TypeParse.takePendingGt >>= f) post := by
  refine Tracks.bind (Q := fun taken => On fun pending b =>
    if taken then P (pending + 1) b else pending = 0 ∧ P 0 b) (Tracks.of_same ?_) ?_
  · intro s b taken s' hP hrun
    simp only [TypeInstr.handle] at hrun
    split_ifs at hrun with hpending
    · cases hrun
      refine ⟨rfl, ?_⟩
      have hsucc : s.pendingTypeGt - 1 + 1 = s.pendingTypeGt := by omega
      simpa [On, hsucc] using hP
    · cases hrun
      have hzero : s.pendingTypeGt = 0 := by omega
      refine ⟨rfl, ?_⟩
      unfold On at hP ⊢
      rw [hzero] at hP
      exact ⟨hzero, hP⟩
  · rintro (_ | _)
    · exact hnone
    · exact htaken

theorem Tracks.loop (Inv : α → Assertion) {post : β → Assertion} {round : α → TypeParse (α ⊕ β)}
    (h : ∀ a, Tracks (Inv a) (round a) fun r s b => match r with
      | .inl next => Inv next s b
      | .inr result => post result s b) (rounds : ℕ) (a : α) :
    Tracks (Inv a) (TypeParse.loop round rounds a) post := by
  induction rounds generalizing a with
  | zero => exact Tracks.stop
  | succ rounds ih =>
    refine Tracks.bind (h a) fun r => ?_
    cases r with
    | inl next => exact ih next
    | inr result => exact Tracks.pure fun _ _ hpost => hpost

/-! ## Paths -/

/-- A kind that is no bracket. -/
def Neutral (kind : TokenKind) : Prop := ∀ b : Brackets, b.next kind = some b

theorem Counts.after_neutral {kind : TokenKind} (h : Neutral kind) : P.after kind = P := by
  have hnext : ∀ b : Brackets, b.next kind = some b := h
  funext pending b
  simp only [after, hnext, Option.some.injEq, exists_eq_right]

theorem Tracks.advance_neutral (kind : TokenKind) (hkind : kind ≠ .eof) (hneutral : Neutral kind)
    (h : ∀ s b, pre s b → On P s b ∧ s.stream.peek.kind = kind) :
    Tracks pre TypeParse.advance fun _ => On P := by
  have hadvance := Tracks.advance kind hkind h
  rwa [Counts.after_neutral hneutral] at hadvance

theorem Tracks.expect_neutral {kind : TokenKind} {code message : String} {length : Token → ℕ}
    (hkind : kind ≠ .eof) (hneutral : Neutral kind) :
    Tracks (On P) (TypeParse.expect kind code message length) fun _ => On P := by
  have hexpect : Tracks (On P) (TypeParse.expect kind code message length) fun _ => On (P.after kind) :=
    Tracks.expect hkind
  rwa [Counts.after_neutral hneutral] at hexpect

theorem neutral_ident (value : String) : Neutral (.ident value) := fun _ => rfl

theorem expectIdent_tracks (message : String) :
    Tracks (On P) (TypeParse.expectIdent message) fun _ => On P := by
  refine Tracks.peek fun token => ?_
  split
  · rename_i value heq
    refine Tracks.bind (Tracks.advance_neutral (.ident value) (by simp) (neutral_ident value)
      fun s b hpre => ⟨hpre.1, by rw [hpre.2, heq]⟩) fun _ => ?_
    exact Tracks.pure fun _ _ h => h
  · exact Tracks.error

theorem expectPathSegmentAfterDot_tracks :
    Tracks (On P) expectPathSegmentAfterDot fun _ => On P := by
  refine Tracks.peek fun token => ?_
  split
  · rename_i value heq
    refine Tracks.bind (Tracks.advance_neutral (.ident value) (by simp) (neutral_ident value)
      fun s b hpre => ⟨hpre.1, by rw [hpre.2, heq]⟩) fun _ => ?_
    exact Tracks.pure fun _ _ h => h
  · rename_i heq
    refine Tracks.bind (Tracks.advance_neutral .kwPanic (by simp) (fun _ => rfl)
      fun s b hpre => ⟨hpre.1, by rw [hpre.2, heq]⟩) fun _ => ?_
    exact Tracks.pure fun _ _ h => h
  · exact Tracks.error

theorem consumeDotPathSeparator_tracks :
    Tracks (On P) consumeDotPathSeparator fun found s b =>
      On P s b ∧ (found = true → s.stream.peek.kind = .dot) := by
  refine Tracks.peek fun token => ?_
  split_ifs with hdot
  · exact Tracks.pure fun s b hpre => ⟨hpre.1, fun _ => by rw [hpre.2, hdot]⟩
  refine Tracks.bind (Q := fun yes s b => On P s b ∧ yes = s.stream.answer .newlineDot)
    (Tracks.of_same fun s b yes s' hpre hrun => ?_) fun yes => ?_
  · cases hrun
    exact ⟨rfl, hpre.1, rfl⟩
  cases yes with
  | false => exact Tracks.pure fun s b hpre => ⟨hpre.1, nofun⟩
  | true =>
    refine Tracks.bind (Q := fun _ s b => On P s b ∧ s.stream.peek.kind = .dot) ?_
      fun _ => Tracks.pure fun s b hpre => ⟨hpre.1, fun _ => hpre.2⟩
    rintro s b r s' tokens ⟨hP, hanswer⟩ hrun htook hclosed
    obtain ⟨b', hb', hP'⟩ := Tracks.skipNewlines s b r s' tokens hP hrun htook hclosed
    refine ⟨b', hb', hP', ?_⟩
    cases hrun
    exact s.stream.peek_consumeNewline hanswer.symm

theorem pathRound_tracks (parts : List String) :
    Tracks (On P) (pathRound parts) fun _ => On P := by
  refine Tracks.bind consumeDotPathSeparator_tracks fun found => ?_
  cases found with
  | false => exact Tracks.pure fun s b hpre => hpre.1
  | true =>
    refine Tracks.bind (Tracks.advance_neutral .dot (by simp) (fun _ => rfl)
      fun s b hpre => ⟨hpre.1, hpre.2 rfl⟩) fun _ => ?_
    exact Tracks.bind expectPathSegmentAfterDot_tracks fun _ => Tracks.pure fun _ _ h => h

theorem parsePath_tracks (depth : ℕ) : Tracks (On P) (parsePath depth) fun _ => On P := by
  refine Tracks.bind (expectIdent_tracks _) fun first => ?_
  refine Tracks.loop (fun _ => On P) (fun parts => ?_) depth [first]
  refine (pathRound_tracks parts).mono (fun _ _ => id) fun r s b h => ?_
  cases r <;> exact h

/-! ## Types -/

/-- Before a type: nothing is pending. -/
def Fresh (b : Brackets) : Counts := fun pending b' => pending = 0 ∧ b' = b

/-- After a type: it has closed as many of the brackets around it as are pending. -/
def Left (b : Brackets) : Counts :=
  fun pending b' => pending ≤ b.level ∧ b' = { b with level := b.level - pending }

/-- A type is read. -/
def ReadsType {α : Type} (p : TypeParse α) : Prop :=
  ∀ b, Tracks (On (Fresh b)) p fun _ => On (Left b)

theorem fresh_of_left {outer : List ℕ} {pending : ℕ} {b : Brackets} (h : Left ⟨0, outer⟩ pending b) :
    Fresh ⟨0, outer⟩ pending b := by
  obtain ⟨hle, rfl⟩ := h
  obtain rfl : pending = 0 := by simpa using hle
  exact ⟨rfl, rfl⟩

section Types

variable {depth : ℕ} {parseTypeRef : TypeParse TypeRef} (hread : ReadsType parseTypeRef)
include hread

theorem callbackParams_tracks (code message : String) (outer : List ℕ) :
    Tracks (On (Fresh ⟨0, outer⟩)) (callbackParams depth parseTypeRef code message)
      fun _ => On (Fresh ⟨0, outer⟩) := by
  refine Tracks.peek fun token => ?_
  split_ifs
  · exact Tracks.pure fun s b hpre => hpre.1
  refine Tracks.mono (Tracks.loop (fun _ => On (Fresh ⟨0, outer⟩)) (fun args => ?_) depth [])
    (fun _ _ hpre => hpre.1) fun _ _ _ => id
  refine Tracks.bind ((hread ⟨0, outer⟩).mono (fun _ _ => id) fun _ _ _ => fresh_of_left) fun arg => ?_
  refine Tracks.peek fun token => ?_
  split
  · rename_i heq
    refine Tracks.bind (Tracks.advance_neutral (P := Fresh ⟨0, outer⟩) .comma (by simp)
      (fun _ => rfl) fun s b hpre => ⟨hpre.1, by rw [hpre.2, heq]⟩) fun _ => ?_
    exact Tracks.pure fun _ _ h => h
  · exact Tracks.pure fun s b hpre => hpre.1
  · exact Tracks.error

theorem callback_tracks (code name params paren close arrow : String) (path : List String) :
    ReadsType (do
      TypeParse.expectKind .kwFn code name
      TypeParse.expectKind .lParen code paren
      let args ← callbackParams depth parseTypeRef code params
      TypeParse.expectKind .rParen code close
      TypeParse.expectKind .arrow code arrow
      let result ← parseTypeRef
      return TypeRef.mk path (args ++ [result])) := by
  intro b
  refine Tracks.bind (Tracks.expect_neutral (by simp) fun _ => rfl) fun _ => ?_
  refine Tracks.bind (Tracks.expect (by simp)) fun _ => ?_
  have hopen : (Fresh b).after .lParen = Fresh ⟨0, b.level :: b.outer⟩ := by
    funext pending b'
    simp [Counts.after, Fresh, Brackets.next, eq_comm]
  rw [hopen]
  refine Tracks.bind (callbackParams_tracks hread code params _) fun args => ?_
  refine Tracks.bind (Tracks.expect (by simp)) fun _ => ?_
  have hclose : (Fresh ⟨0, b.level :: b.outer⟩).after .rParen = Fresh b := by
    funext pending b'
    cases b
    simp [Counts.after, Fresh, Brackets.next, eq_comm]
  rw [hclose]
  refine Tracks.bind (Tracks.expect_neutral (by simp) fun _ => rfl) fun _ => ?_
  exact Tracks.bind (hread b) fun result => Tracks.pure fun _ _ h => h

theorem parseExternCCallbackTypeRef_tracks :
    ReadsType (parseExternCCallbackTypeRef depth parseTypeRef) := by
  intro b
  refine Tracks.bind (Tracks.expect_neutral (by simp) fun _ => rfl) fun _ => ?_
  refine Tracks.bind (Tracks.expect_neutral (by simp) fun _ => rfl) fun _ => ?_
  exact callback_tracks hread _ _ _ _ _ _ _ b

theorem parseTaskCallbackTypeRef_tracks :
    ReadsType (parseTaskCallbackTypeRef depth parseTypeRef) := by
  intro b
  refine Tracks.bind (Tracks.expect_neutral (by simp) fun _ => rfl) fun _ => ?_
  exact callback_tracks hread _ _ _ _ _ _ _ b

theorem typeArgRound_tracks (b : Brackets) (args : List TypeRef) :
    Tracks (On (Fresh { b with level := b.level + 1 })) (typeArgRound parseTypeRef args)
      fun r => match r with
        | .inl _ => On (Fresh { b with level := b.level + 1 })
        | .inr _ => On (Left b) := by
  refine Tracks.bind (hread _) fun arg => Tracks.takePendingGt ?_ ?_
  · -- the type has closed this bracket too
    refine Tracks.pure fun s b' hleft => ?_
    obtain ⟨hle, rfl⟩ := hleft
    exact ⟨by simpa using hle, by simp⟩
  have hfresh : (fun pending b' => pending = 0 ∧ Left { b with level := b.level + 1 } 0 b') =
      Fresh { b with level := b.level + 1 } := by
    funext pending b'
    simp [Left, Fresh]
  rw [hfresh]
  refine Tracks.bind Tracks.skipNewlines fun _ => Tracks.peek fun token => ?_
  split
  · rename_i heq
    refine Tracks.bind (Tracks.advance_neutral (P := Fresh { b with level := b.level + 1 }) .comma
      (by simp) (fun _ => rfl) fun s b hpre => ⟨hpre.1, by rw [hpre.2, heq]⟩) fun _ => ?_
    exact Tracks.bind Tracks.skipNewlines fun _ => Tracks.pure fun _ _ h => h
  · rename_i heq
    refine Tracks.bind (Tracks.advance (P := Fresh { b with level := b.level + 1 }) .greater
      (by simp) fun s b hpre => ⟨hpre.1, by rw [hpre.2, heq]⟩) fun _ => ?_
    refine Tracks.pure fun s b' hafter => ?_
    obtain ⟨_, ⟨hzero, rfl⟩, hnext⟩ := hafter
    simp only [Brackets.next, Nat.le_add_left, if_true, Option.some.injEq] at hnext
    subst hnext
    exact ⟨by simp [hzero], by simp [hzero]⟩
  · rename_i heq
    refine Tracks.bind (Tracks.advance (P := Fresh { b with level := b.level + 1 }) .greaterGreater
      (by simp) fun s b hpre => ⟨hpre.1, by rw [hpre.2, heq]⟩) fun _ => ?_
    refine Tracks.bind (Q := fun _ => On (Left b)) (Tracks.of_same fun s b' r s' hafter hrun => ?_)
      fun _ => Tracks.pure fun _ _ h => h
    cases hrun
    obtain ⟨_, ⟨hzero, rfl⟩, hnext⟩ := hafter
    simp only [Brackets.next] at hnext
    split_ifs at hnext with hlevel
    cases hnext
    refine ⟨rfl, ?_, ?_⟩
    · simp only [hzero]
      omega
    · simp only [hzero, Brackets.mk.injEq, and_true]
      omega
  · exact Tracks.error

theorem parseTypeArgs_tracks : ReadsType (parseTypeArgs depth parseTypeRef) := by
  intro b
  refine Tracks.peek fun token => ?_
  split_ifs with h
  · refine Tracks.bind (Tracks.advance (P := Fresh b) .less (by simp)
      fun s b hpre => ⟨hpre.1, by rw [hpre.2, h]⟩) fun _ => ?_
    have hopen : (Fresh b).after .less = Fresh { b with level := b.level + 1 } := by
      funext pending b'
      simp [Counts.after, Fresh, Brackets.next, eq_comm]
    rw [hopen]
    refine Tracks.bind Tracks.skipNewlines fun _ => ?_
    refine Tracks.loop (fun _ => On (Fresh { b with level := b.level + 1 })) (fun args => ?_)
      depth []
    refine (typeArgRound_tracks hread b args).mono (fun _ _ => id) fun r s b' hpost => ?_
    cases r <;> exact hpost
  · refine Tracks.pure fun s b' hpre => ?_
    obtain ⟨⟨hzero, rfl⟩, -⟩ := hpre
    exact ⟨by simp [hzero], by simp [hzero]⟩

theorem typeRefBody_tracks : ReadsType (typeRefBody depth parseTypeRef) := by
  intro b
  refine Tracks.peek fun token => ?_
  split_ifs
  · exact (parseExternCCallbackTypeRef_tracks hread b).mono (fun _ _ hpre => hpre.1) fun _ _ _ => id
  refine Tracks.ask fun yes => ?_
  split_ifs
  · exact (parseTaskCallbackTypeRef_tracks hread b).mono (fun _ _ hpre => hpre.1) fun _ _ _ => id
  refine Tracks.peek fun token => ?_
  split_ifs with hvoid
  · refine Tracks.bind (Tracks.advance_neutral (P := Fresh b) .kwVoid (by simp) (fun _ => rfl)
      fun s b hpre => ⟨hpre.1.1, by rw [hpre.2, hvoid]⟩) fun _ => ?_
    refine Tracks.pure fun s b' hpre => ?_
    obtain ⟨hzero, rfl⟩ := hpre
    exact ⟨by simp [hzero], by simp [hzero]⟩
  · refine Tracks.bind ((parsePath_tracks depth).mono (fun _ _ hpre => hpre.1.1)
      fun _ _ _ => id) fun path => ?_
    exact Tracks.bind (parseTypeArgs_tracks hread b) fun args => Tracks.pure fun _ _ h => h

end Types

/-- **A type leaves pending what it closes around it.** -/
theorem parseTypeRef_tracks (depth : ℕ) : ReadsType (parseTypeRef depth) := by
  induction depth with
  | zero => exact fun b => Tracks.stop
  | succ depth ih => exact typeRefBody_tracks ih

/-- **A type on its own** whose tokens close only open brackets leaves nothing pending, and its brackets
balance. -/
theorem ReadsType.balanced {α : Type} {p : TypeParse α} (h : ReadsType p) {s s' : TypeState} {a : α}
    (hrun : p.run TypeInstr.handle s = .ok (a, s')) (hzero : s.pendingTypeGt = 0)
    {tokens : List Token} (htook : Took s s' tokens) (hclosed : ClosesOnlyOpen tokens) :
    s'.pendingTypeGt = 0 ∧ Balanced tokens := by
  obtain ⟨b', hb', hle, rfl⟩ := h .closed s .closed a s' tokens ⟨hzero, rfl⟩ hrun htook hclosed
  refine ⟨Nat.le_zero.1 hle, ?_⟩
  rw [Balanced, hb']
  simp [Brackets.closed]

end Nomo.Syntax
