import Nomo.Syntax.DeclReads

/-!
# What is read with a source file

In a file that is parsed, the words outside all brackets seem to start its items in their order, and
besides them one more for each callback type there (`parseInOrder_leads`).
-/

namespace Nomo.Syntax

open Nomo.Lib Outside Parse

/-- What is noted of items: these, and more if there are callback types. -/
structure Matches (kinds : List ItemKind) (entries : Entries) : Prop where
  same : entries.callbacks = 0 → entries.kinds = kinds
  more : entries.callbacks ≠ 0 → kinds.length < entries.kinds.length

theorem Matches.length_le {kinds : List ItemKind} {entries : Entries} (h : Matches kinds entries) :
    kinds.length ≤ entries.kinds.length := by
  by_cases hzero : entries.callbacks = 0
  · rw [h.same hzero]
  · exact (h.more hzero).le

theorem Matches.add {kinds : List ItemKind} {entries : Entries} (h : Matches kinds entries)
    (kind : ItemKind) : Matches (kinds ++ [kind]) (entries.add kind) where
  same hzero := by rw [Entries.add, h.same hzero]
  more hmore := by simpa [Entries.add] using h.more hmore

theorem Matches.grown {kinds : List ItemKind} {entries entries' : Entries} (h : Matches kinds entries)
    (hgrown : Grown 0 entries entries') : Matches kinds entries' where
  same hzero := by
    have hle := hgrown.callbacks
    have hzero' : entries.callbacks = 0 := by omega
    rw [hgrown.same_iff.2 (hzero.trans hzero'.symm), h.same hzero']
  more hmore := by
    by_cases hcallbacks : entries'.callbacks = entries.callbacks
    · rw [hgrown.same_iff.2 hcallbacks]
      exact h.more (hcallbacks ▸ hmore)
    have hkinds : entries'.kinds ≠ entries.kinds := fun hsame => hcallbacks (hgrown.same_iff.1 hsame)
    have hlength : entries.kinds.length < entries'.kinds.length := by
      refine lt_of_le_of_ne hgrown.kinds.length_le fun hlength => hkinds ?_
      exact (hgrown.kinds.eq_of_length hlength).symm
    exact h.length_le.trans_lt hlength

variable {types : ℕ} {r : Recursive}

/-- What is known between two items: what has been noted matches them. -/
def Between (parsed : Parsed) (_ : Parser) (g : Noted) : Prop :=
  ∃ entries asked, g = noted 0 entries asked ∧ Matches (parsed.items.map Item.kind) entries

theorem Leads.checkItemStart {α : Type} {attributes : DeclarationAttributes}
    {isPublic parsingScriptBody : Bool} {kind : TokenKind} {f : Unit → Parse α} {s : Parser} {g : Noted}
    {post : α → Parser → Noted → Prop} (h : Leads types (f ()) s g post) :
    Leads types (checkItemStart attributes isPublic parsingScriptBody kind >>= f) s g post := by
  refine Program.Leads.bind ?_
  unfold Nomo.Syntax.checkItemStart
  split_ifs
  · exact Leads.error
  · exact Leads.error
  · exact Leads.error
  · exact Program.Leads.pure h

theorem importRound_leads (imports : List (List String)) (s : Parser) (depth : ℕ) (entries : Entries)
    (asked : List (List TypeRef)) :
    Leads types (importRound imports) s (noted depth entries asked)
      fun _ _ g => g = noted depth entries asked := by
  refine Leads.skipNewlines fun s => Leads.takePlain rfl fun yes s => ?_
  split_ifs
  · refine Leads.quiet importPath_quiet fun path s => ?_
    exact Leads.quiet (expectNewline_quiet _) fun _ s => Program.Leads.pure rfl
  · exact Program.Leads.pure rfl

section

variable (hr : AllRead types r)
include hr

theorem scriptRound_leads (attributes : DeclarationAttributes) {isPublic : Bool} {parsed : Parsed}
    {w : Outside} {entries : Entries} {asked : List (List TypeRef)}
    (hw : if isPublic then w = ⟨0, .item, entries⟩ else w = resting 0 entries)
    (hmatches : Matches (parsed.items.map Item.kind) entries) (s : Parser) :
    Leads types (scriptRound r attributes isPublic s.stream.peek.kind parsed) s ⟨w, asked⟩
      fun
      | .inl next => Between next
      | .inr result => fun t g => Between result t g ∧ t.stream.peek.kind = .eof := by
  unfold scriptRound
  split_ifs with heof hpublic
  · rw [if_neg heof.2.1] at hw
    exact Program.Leads.pure ⟨⟨entries, asked, by rw [hw, noted], hmatches⟩, heof.1⟩
  · exact Leads.error
  · exact Leads.error
  rw [if_neg hpublic] at hw
  subst hw
  refine Program.Leads.bind ((hr.parseStmt s 0 entries asked).mono fun stmt s g hends => ?_)
  obtain ⟨entries', rfl, hgrown⟩ := hends
  refine Leads.quiet (expectNewline_quiet _) fun _ s => Program.Leads.pure ?_
  exact ⟨entries', _, rfl, hmatches.grown hgrown⟩

/-- The item, or the statement, from behind `pub` on. -/
theorem behindPub_leads (attributes : DeclarationAttributes) (isPublic : Bool) {parsed : Parsed}
    {w : Outside} {entries : Entries} {asked : List (List TypeRef)}
    (hw : if isPublic then w = ⟨0, .item, entries⟩ else w = resting 0 entries)
    (hmatches : Matches (parsed.items.map Item.kind) entries) (s : Parser) :
    Leads types (do
      let kind := (← peek).kind
      checkItemStart attributes isPublic parsed.parsingScriptBody kind
      match (if parsed.parsingScriptBody then none else itemParser r attributes isPublic kind) with
      | some parseItem => do
        let item ← parseItem
        return .inl { parsed with items := parsed.items ++ [item] }
      | none => scriptRound r attributes isPublic kind parsed) s ⟨w, asked⟩ fun
        | .inl next => Between next
        | .inr result => fun t g => Between result t g ∧ t.stream.peek.kind = .eof := by
  refine Leads.peek (Leads.checkItemStart ?_)
  split
  · rename_i parseItem hitem
    split_ifs at hitem
    refine Program.Leads.bind ((itemParser_leads hr hitem hw s).mono fun item s g hends => ?_)
    obtain ⟨entries', rfl, hgrown⟩ := hends
    refine Program.Leads.pure ⟨entries', _, rfl, ?_⟩
    rw [List.map_append]
    exact (hmatches.add item.kind).grown hgrown
  · exact scriptRound_leads hr attributes hw hmatches s

theorem itemRound_leads (parsed : Parsed) (s : Parser) (g : Noted) (h : Between parsed s g) :
    Leads types (itemRound r parsed) s g fun
      | .inl next => Between next
      | .inr result => fun t g => Between result t g ∧ t.stream.peek.kind = .eof := by
  obtain ⟨entries, asked, rfl, hmatches⟩ := h
  refine Leads.skipNewlines fun s => ?_
  refine Program.Leads.bind ((parseDeclarationAttributes_reads s 0 entries asked).mono
    fun attributes s g hends => ?_)
  obtain ⟨entries, rfl, hgrown⟩ := hends
  have hmatches := hmatches.grown hgrown
  refine Leads.take (by simp) (fun token s hkind => ?_) ?_
  · exact ⟨⟨0, .item, entries⟩, by simp [noted, Outside.next, nextFree, resting, hkind],
      behindPub_leads hr attributes true (by rfl) hmatches s⟩
  · exact behindPub_leads hr attributes false (by rfl) hmatches s

/-- **A file that is parsed** is read to its end, and what is noted matches its items. -/
theorem parseInOrder_leads (s : Parser) :
    Leads types (parseInOrder r) s (noted 0 ⟨[], 0⟩ []) fun result t g =>
      t.stream.peek.kind = .eof ∧
        (∃ package imports scriptBody, result.1 = .ofItems package imports result.2 scriptBody) ∧
        ∃ entries asked, g = noted 0 entries asked ∧ Matches (result.2.map Item.kind) entries := by
  refine Leads.skipNewlines fun s => Leads.expectPlain rfl fun s => ?_
  refine Leads.quiet path_quiet fun package s => Leads.quiet (expectNewline_quiet _) fun _ s => ?_
  refine Leads.quiet (fun s depth entries asked => ?_) fun imports s => ?_
  · refine Program.Leads.loop (fun _ _ g => g = noted depth entries asked) (fun _ _ => nofun)
      (fun imports s g hg => ?_) r.rounds rfl
    subst hg
    refine (importRound_leads imports s depth entries asked).mono fun r s g hg => ?_
    cases r <;> exact hg
  have hitems : Leads types (loop (itemRound r) r.rounds ⟨[], [], false⟩) s (noted 0 ⟨[], 0⟩ [])
      fun result t g => Between result t g ∧ t.stream.peek.kind = .eof := by
    refine Program.Leads.loop Between (fun _ _ => Leads.stop) (fun parsed s g hbetween => ?_) r.rounds
      ⟨⟨[], 0⟩, [], rfl, fun _ => rfl, nofun⟩
    refine (itemRound_leads hr parsed s g hbetween).mono fun r s g h => ?_
    cases r <;> exact h
  refine Program.Leads.bind (hitems.mono fun parsed s g hbetween => ?_)
  obtain ⟨⟨entries, asked, rfl, hmatches⟩, heof⟩ := hbetween
  refine Program.Leads.pure ⟨heof, ⟨package, imports, parsed.scriptBody, rfl⟩, entries, asked, rfl, ?_⟩
  have hkinds (package : List String) (item : Item) : (item.inPackage package).kind = item.kind := by
    cases item <;> rfl
  simpa [Function.comp_def, hkinds] using hmatches

end

theorem outside_of_noted {steps : List (Program.Step ParseInstr ParseInstr.Answer Parser)} {g g' : Noted}
    (h : steps.foldlM Noted.step g = some g') :
    steps.foldlM (Program.reading (·.stream.rest) Outside.next) g.outside = some g'.outside := by
  induction steps generalizing g with
  | nil =>
    cases h
    rfl
  | cons step steps ih =>
    rw [List.foldlM_cons] at h ⊢
    obtain ⟨g₁, hstep, hsteps⟩ := Option.bind_eq_some_iff.1 h
    obtain ⟨w, hread, rfl⟩ := Option.map_eq_some_iff.1 hstep
    rw [hread]
    exact ih hsteps

/-- **The tokens of a file that is parsed**: the reader takes them, up to the end of the file. -/
theorem parseInOrder_reads {depth : ℕ} {stream : TokenStream} {file : SourceFile} {items : List Item}
    {final : Parser} (h : (parseInOrder (recursive depth)).run (ParseInstr.handle depth) (.start stream) =
      .ok ((file, items), final)) :
    ∃ tokens entries, stream.rest = tokens ++ final.stream.rest ∧
      (final.stream.rest = [] ∨ ∃ token tail, final.stream.rest = token :: tail ∧ token.kind = .eof) ∧
      (∃ package imports scriptBody, file = .ofItems package imports items scriptBody) ∧
      tokens.foldlM Outside.next (resting 0 ⟨[], 0⟩) = some (resting 0 entries) ∧
      Matches (items.map Item.kind) entries := by
  obtain ⟨g, hsteps, heof, hfile, entries, asked, rfl, hmatches⟩ :=
    parseInOrder_leads (recursive_reads depth depth) (.start stream) _ _ h
  have hread := outside_of_noted hsteps
  rw [Program.foldlM_reading (ParseInstr.suffix depth) h] at hread
  obtain ⟨tokens, htokens⟩ := Program.input_of_run (fun s : Parser => s.stream.rest)
    (ParseInstr.suffix depth) h
  have htaken : Program.taken (fun s : Parser => s.stream.rest) (.start stream) final = tokens :=
    Program.taken_eq htokens.symm
  rw [htaken] at hread
  refine ⟨tokens, entries, htokens.symm, ?_, hfile, hread, hmatches⟩
  cases hrest : final.stream.rest with
  | nil => exact .inl rfl
  | cons token tail =>
    refine .inr ⟨token, tail, rfl, ?_⟩
    simpa [TokenStream.peek, hrest] using heof

/-! ## Brackets -/

/-- How many tokens are brackets of this sort. -/
def brackets (sort : TokenKind → Bool) (tokens : List Token) : ℕ :=
  tokens.countP fun token => sort token.kind

theorem depth_next {w w' : Outside} {token : Token} (h : w.next token = some w') :
    w'.depth + (isClosing token.kind).toNat = w.depth + (isOpening token.kind).toNat := by
  unfold next nextFree start at h
  split at h
  all_goals (try split at h) <;> (try split_ifs at h) <;> cases h <;>
    simp_all [isClosing, isOpening] <;> omega

theorem depth_read {tokens : List Token} {w w' : Outside} (h : tokens.foldlM next w = some w') :
    w'.depth + brackets isClosing tokens = w.depth + brackets isOpening tokens := by
  induction tokens generalizing w with
  | nil =>
    cases h
    rfl
  | cons token tokens ih =>
    rw [List.foldlM_cons] at h
    obtain ⟨w₁, hnext, hread⟩ := Option.bind_eq_some_iff.1 h
    have hstep := depth_next hnext
    have hrest := ih hread
    simp only [brackets, List.countP_cons, Bool.toNat] at hstep hrest ⊢
    grind

/-- **The brackets of a file that is parsed**: all are closed, and none before it is opened. -/
theorem parseInOrder_balanced {depth : ℕ} {stream : TokenStream} {result : SourceFile × List Item}
    {final : Parser} (h : (parseInOrder (recursive depth)).run (ParseInstr.handle depth)
      (.start stream) = .ok (result, final)) :
    ∃ tokens, stream.rest = tokens ++ final.stream.rest ∧
      (final.stream.rest = [] ∨ ∃ token tail, final.stream.rest = token :: tail ∧ token.kind = .eof) ∧
      brackets isClosing tokens = brackets isOpening tokens ∧
      ∀ front, front <+: tokens → brackets isClosing front ≤ brackets isOpening front := by
  obtain ⟨tokens, entries, htokens, hend, -, hread, -⟩ := parseInOrder_reads h
  refine ⟨tokens, htokens, hend, by simpa [resting] using depth_read hread, ?_⟩
  rintro front ⟨back, rfl⟩
  rw [List.foldlM_append] at hread
  obtain ⟨w, hfront, -⟩ := Option.bind_eq_some_iff.1 hread
  have hdepth := depth_read hfront
  simp only [resting] at hdepth
  omega

end Nomo.Syntax
