import Klein.Proofs.Parser.Alike

namespace Klein

open Grammar

/-- A lexeme of each kind. -/
def Kind.sample : Kind → Lexeme
  | .identifier => ⟨.identifier, "x"⟩
  | .integer => ⟨.integer, "0"⟩
  | .boolean => ⟨.boolean, "true"⟩
  | kind => kind.lexeme

@[simp]
theorem Kind.sample_kind (kind : Kind) : kind.sample.kind = kind := by
  cases kind <;> rfl

theorem Kind.spells_sample {kind : Kind} (hkind : kind ≠ .endOfFile) :
    kind.Spells kind.sample.text := by
  cases kind with
  | identifier => exact ⟨⟨'x', rfl, rfl⟩, List.all_eq_true.mp rfl, by decide, by decide⟩
  | integer => exact ⟨List.all_eq_true.mp rfl, .inl rfl, by decide⟩
  | boolean => exact .inl rfl
  | endOfFile => exact absurd rfl hkind
  | _ => rfl

/-- The first tokens of a text can be followed by tokens of any kinds, in another text. -/
theorem Scanner.exists_continuation {text : String} {front back : List Token} {word : List Kind}
    (hdrain : (ofText text).drain.1 = front ++ back)
    (hfront : ∀ token ∈ front, token.kind ≠ .endOfFile) (hword : .endOfFile ∉ word) :
    ∃ (other : String) (last : Scanner) (body : List Token) (eof : Token),
      (ofText other).drain = (front ++ body ++ [eof], none, last) ∧
      body.map Token.kind = word ∧ eof.kind = .endOfFile := by
  obtain ⟨passed, rest, after, -, -, -, hexchange⟩ :=
    (ready_ofText text).drain_exchange hdrain hfront
  have hspaced := spaced_trail (word.map Kind.sample)
  have hready := ready_ofText (String.ofList (passed ++ trail (word.map Kind.sample)))
  rw [String.toList_ofList] at hready
  obtain ⟨left, hleft, hnew⟩ := hexchange _ _ (fun lexeme _ => hspaced.bounded lexeme) hready
  have hspells : ∀ lexeme ∈ word.map Kind.sample, lexeme.kind.Spells lexeme.text := by
    intro lexeme hlexeme
    obtain ⟨kind, hkind, rfl⟩ := List.mem_map.mp hlexeme
    rw [Kind.sample_kind]
    exact Kind.spells_sample fun hend => hword (hend ▸ hkind)
  obtain ⟨tokens, last, htrail, hmarks⟩ := hleft.drain_trail hspells
  obtain ⟨body, ends, rfl, hbody, hends⟩ := List.map_eq_append_iff.mp hmarks
  obtain ⟨eof, rfl, heof⟩ := List.map_eq_singleton_iff.mp hends
  rw [htrail, ← List.append_assoc] at hnew
  refine ⟨_, last, body, eof, hnew, ?_, congrArg Prod.fst heof⟩
  have hkinds := congrArg (List.map Prod.fst) hbody
  simpa [Function.comp_def, Token.mark, Lexeme.mark] using hkinds

/-- Tokens that a text has, up to its end, and that are parsed. -/
def Accepted (tokens : List Token) : Prop :=
  ∃ text last program, (Scanner.ofText text).drain = (tokens, none, last) ∧
    parse text = .ok program

namespace Parser

variable {text : String} {q : Parser} {item : Item} {items : List Item} {taken : List Token}
  {e : ParseError}

/-- The kinds of the tokens that a parser has taken start a sentence of the grammar. -/
theorem Reaches.exists_sentence (hreaches : Reaches { stream := .ofText text } taken q)
    (hitems : q.items = item :: items) :
    ∃ word, taken.map Token.kind ++ word ∈ klein.language := by
  rcases ((worksOn_ofText text).of_reaches hreaches).framed with hnil | ⟨front, s, hframe, -⟩
  · rw [hitems] at hnil
    cases hnil
  obtain ⟨word, hword⟩ := exists_yields front
  have hrest : Yields (erase q.items) (word ++ [.endOfFile]) := by
    rw [hframe, erase_append]
    exact hword.append (.terminal .nil)
  obtain ⟨sentence, hsentence, hsplit⟩ := exists_word_of_yields (hreaches.yields hrest)
  rw [← List.append_assoc] at hsplit
  obtain rfl := List.append_inj_left' hsplit rfl
  exact ⟨word, hsentence⟩

/-- The tokens that a parser has taken can be completed. -/
theorem Reaches.accepted (hreaches : Reaches { stream := .ofText text } taken q)
    (hitems : q.items = item :: items) : ∃ rest, Accepted (taken ++ rest) := by
  obtain ⟨word, hword⟩ := hreaches.exists_sentence hitems
  have hkinds : .endOfFile ∉ taken.map Token.kind ++ word :=
    (mem_language_iff_yields.mp hword).endOfFile_not_mem (by simp)
  simp only [List.mem_append, not_or] at hkinds
  obtain ⟨s, -, hdrain⟩ := hreaches.drain rfl
  obtain ⟨other, last, body, eof, hother, hbody, heof⟩ :=
    Scanner.exists_continuation (congrArg Prod.fst hdrain)
      (fun token htoken hend => hkinds.1 (List.mem_map.mpr ⟨token, htoken, hend⟩)) hkinds.2
  obtain ⟨program, hparse⟩ := exists_parse_of_mem_language hother heof
    (by rwa [List.map_append, hbody])
  exact ⟨body ++ [eof], other, last, program, by rw [hother, List.append_assoc], hparse⟩

/-- Nothing is parsed that starts with the tokens taken and the token at which parsing stops,
    wherever these stand. -/
theorem StopsAfter.not_parsed {token : Token} {stream : TokenStream} {program : Program}
    (h : StopsAfter (.ofText text) taken e) (htoken : e.token? = some token)
    (hparse : parseStream rules stream = .ok program) :
    ¬((Scanner.ofText text).drain.1.take (taken.length + 1)).map Token.mark <+:
      stream.ahead.map Token.mark := by
  intro hstart
  have hlength : taken.length < (Scanner.ofText text).drain.1.length :=
    (List.getElem?_eq_some_iff.mp (h.getElem? htoken)).1
  have hmarks := List.prefix_iff_eq_take.mp hstart
  rw [List.length_map, List.length_take, Nat.min_eq_left hlength, List.map_take] at hmarks
  obtain ⟨others, e', other, hstops, -⟩ := h.of_marks htoken hmarks.symm
  rw [hstops.parseStream_eq] at hparse
  cases hparse

/-- A text that is not parsed is reported at the first token that cannot stand where it does: what
    comes before it is how some text starts that is parsed, and nothing that is parsed starts with
    it as well, as far as kinds and values of tokens go. If a lexical fault is reported instead,
    all tokens before the fault are how some text starts that is parsed. -/
theorem parse_error_earliest (hparse : parse text = .error e) :
    (∃ token index, e.token? = some token ∧
        (Scanner.ofText text).drain.1[index]? = some token ∧
        (∃ rest, Accepted ((Scanner.ofText text).drain.1.take index ++ rest)) ∧
        ∀ stream program, parseStream rules stream = .ok program →
          ¬((Scanner.ofText text).drain.1.take (index + 1)).map Token.mark <+:
            stream.ahead.map Token.mark) ∨
      ∃ fault, e = .scan (.lexical fault) ∧
        (Scanner.ofText text).drain.2.1 = some (.lexical fault) ∧
        ∃ rest, Accepted ((Scanner.ofText text).drain.1 ++ rest) := by
  obtain ⟨taken, hstops⟩ := exists_stopsAfter hparse
  have haccepted : ∃ rest, Accepted (taken ++ rest) := by
    obtain ⟨q, item, items, hreaches, hitems, -⟩ := hstops
    exact hreaches.accepted hitems
  rcases hstops.cases with ⟨token, htoken⟩ | ⟨fault, he, hall, hfault⟩
  · refine .inl ⟨token, taken.length, htoken, hstops.getElem? htoken, ?_,
      fun stream program => hstops.not_parsed htoken⟩
    obtain ⟨q, item, items, hreaches, -⟩ := hstops
    obtain ⟨s, -, hdrain⟩ := hreaches.drain rfl
    rwa [hdrain, List.take_left]
  · exact .inr ⟨fault, he, hfault, hall ▸ haccepted⟩

/-- A comma where the parameters of a definition start: up to the comma the text could be
    completed. -/
theorem parse_error_earliest_comma :
    ∃ e, parse "function f(,):integer 1" = .error e ∧
      e.token? = some ⟨.comma, none, ⟨1, 12, 11⟩⟩ ∧
      ∃ rest, Accepted (⟨.keywordFunction, none, ⟨1, 1, 0⟩⟩ ::
        ⟨.identifier, some "f", ⟨1, 10, 9⟩⟩ :: ⟨.leftParen, none, ⟨1, 11, 10⟩⟩ :: rest) := by
  have hfails : (match parse "function f(,):integer 1" with
    | .ok _ => none
    | .error e => e.token?) = some ⟨.comma, none, ⟨1, 12, 11⟩⟩ := by decide +kernel
  have htokens : (Scanner.ofText "function f(,):integer 1").drain.1.take 3 =
      [⟨.keywordFunction, none, ⟨1, 1, 0⟩⟩, ⟨.identifier, some "f", ⟨1, 10, 9⟩⟩,
        ⟨.leftParen, none, ⟨1, 11, 10⟩⟩] := by decide +kernel
  have hcomma : ∀ index < (Scanner.ofText "function f(,):integer 1").drain.1.length,
      (Scanner.ofText "function f(,):integer 1").drain.1[index]? =
        some ⟨.comma, none, ⟨1, 12, 11⟩⟩ → index = 3 := by decide +kernel
  cases hparse : parse "function f(,):integer 1" with
  | ok program => simp [hparse] at hfails
  | error e =>
    have htoken : e.token? = some ⟨.comma, none, ⟨1, 12, 11⟩⟩ := by simpa [hparse] using hfails
    refine ⟨e, rfl, htoken, ?_⟩
    rcases parse_error_earliest hparse with
      ⟨token, index, hfound, hindex, haccepted, -⟩ | ⟨fault, rfl, -⟩
    · cases htoken.symm.trans hfound
      obtain rfl := hcomma index (List.getElem?_eq_some_iff.mp hindex).1 hindex
      rwa [htokens] at haccepted
    · cases htoken

end Parser

end Klein
