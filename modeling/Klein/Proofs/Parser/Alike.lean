import Klein.Proofs.Parser.Safety
import Klein.Proofs.Scanner.Splicing

namespace Klein

open Grammar

/-- The token that a failure of the parser is about. -/
def ParseError.token? : ParseError → Option Token
  | .unexpected _ token | .noRule _ _ token => some token
  | _ => none

/-- An action that succeeds uses the kind and the value of the token read last, and not its
    place. -/
theorem NodeStack.act_of_mark {stack after : NodeStack} {recent other : Option Token}
    {action : Action} (hmark : recent.map Token.mark = other.map Token.mark)
    (hact : stack.act recent action = (.ok (), after)) :
    stack.act other action = (.ok (), after) := by
  rcases recent with _ | ⟨kind, value, position⟩ <;> rcases other with _ | ⟨kind', value', place⟩
  · exact hact
  · cases hmark
  · cases hmark
  · cases hmark
    cases action with
    | makeIdentifier =>
      cases kind with
      | keywordPrint => exact hact
      | _ =>
        cases value with
        | none => cases hact
        | some name => exact hact
    | makeIntegerLiteral | makeBooleanLiteral =>
      cases value with
      | none => cases hact
      | some text => exact hact
    | _ => exact hact

namespace Parser

/-- Two parsers with the same items and nodes. What they see of the token read last is the same, and
    what they will see of a number of tokens ahead. -/
structure Alike (count : Nat) (p q : Parser) : Prop where
  items : p.items = q.items
  nodes : p.nodes = q.nodes
  recent : p.recent.map Token.mark = q.recent.map Token.mark
  ahead : (p.stream.ahead.map Token.mark).take count = (q.stream.ahead.map Token.mark).take count

variable {count : Nat} {p q r : Parser} {item : Item} {items : List Item} {taken : List Token}
  {e : ParseError} {token : Token}

theorem Alike.exists_ahead {tokens : List Token} (h : Alike (count + 1) p q)
    (hahead : p.stream.ahead = token :: tokens) :
    ∃ other others, q.stream.ahead = other :: others ∧ other.mark = token.mark ∧
      (tokens.map Token.mark).take count = (others.map Token.mark).take count := by
  have hmarks := h.ahead
  cases hothers : q.stream.ahead with
  | nil => simp [hahead, hothers] at hmarks
  | cons other others =>
    simp only [hahead, hothers, List.map_cons, List.take_succ_cons, List.cons.injEq] at hmarks
    exact ⟨other, others, rfl, hmarks.1.symm, hmarks.2⟩

/-- A parser takes the steps of one that is alike. -/
theorem Alike.step (h : Alike (count + 1) p q) (hitems : p.items = item :: items)
    (hstep : Parser.step rules { p with items } item = .ok r) :
    ∃ r', Parser.step rules { q with items } item = .ok r' ∧
      (takenBy item r').map Token.mark = (takenBy item r).map Token.mark ∧
      Alike (count + 1 - (takenBy item r).length) r r' := by
  cases item with
  | token kind =>
    obtain ⟨token, stream, hnext, hkind, rfl⟩ := step_token_eq_ok.mp hstep
    obtain ⟨other, others, hahead, hmark, hrest⟩ :=
      h.exists_ahead (TokenStream.ahead_of_next_ok hnext)
    obtain ⟨stream', hnext', hothers, -⟩ := TokenStream.next_of_ahead_cons hahead
    refine ⟨_, step_token_eq_ok.mpr ⟨other, stream', hnext', ?_, rfl⟩, ?_, rfl, h.nodes, ?_, ?_⟩
    · rw [← hkind]
      exact congrArg Prod.fst hmark
    · simp [takenBy, hmark]
    · simp [hmark]
    · simpa [takenBy, hothers] using hrest
  | nonterminal n =>
    obtain ⟨token, stream, rule, hpeek, hrule, rfl⟩ := step_nonterminal_eq_ok.mp hstep
    obtain ⟨hsame, tokens, htokens⟩ := TokenStream.ahead_of_peek_ok hpeek
    obtain ⟨other, others, hahead, hmark, -⟩ := h.exists_ahead htokens
    obtain ⟨stream', hpeek', hsame', -⟩ := TokenStream.peek_of_ahead_cons hahead
    have hkind : other.kind = token.kind := congrArg Prod.fst hmark
    refine ⟨_, step_nonterminal_eq_ok.mpr ⟨other, stream', rule, hpeek', hkind ▸ hrule, rfl⟩, rfl,
      rfl, h.nodes, by simp [hmark], ?_⟩
    simpa [takenBy, hsame, hsame'] using h.ahead
  | action a =>
    obtain ⟨nodes, hact, rfl⟩ := step_action_eq_ok.mp hstep
    have hother := NodeStack.act_of_mark h.recent (h.nodes ▸ hact)
    exact ⟨_, step_action_eq_ok.mpr ⟨nodes, hother, rfl⟩, rfl, rfl, rfl, h.recent, h.ahead⟩

/-- A parser comes to where one that is alike comes to, as long as it sees the same. -/
theorem Alike.reaches (h : Alike count p q) (hreaches : Reaches p taken r)
    (hcount : taken.length < count) :
    ∃ others r', Reaches q others r' ∧ others.map Token.mark = taken.map Token.mark ∧
      Alike (count - taken.length) r r' := by
  induction hreaches generalizing count q with
  | refl p => exact ⟨[], q, .refl q, rfl, h⟩
  | @step p next r item items taken hitems hstep _ ih =>
    rw [List.length_append] at hcount
    obtain ⟨count, rfl⟩ := Nat.exists_eq_succ_of_ne_zero (Nat.ne_of_gt (Nat.zero_lt_of_lt hcount))
    obtain ⟨other, hother, hmarks, halike⟩ := h.step hitems hstep
    obtain ⟨others, final, hreaches, hrest, hfinal⟩ := ih halike (by omega)
    refine ⟨_, final, .step (h.items ▸ hitems) hother hreaches, ?_, ?_⟩
    · rw [List.map_append, List.map_append, hmarks, hrest]
    · rwa [List.length_append, ← Nat.sub_sub]

/-- An item that does not go with a kind of token. -/
def Refuses : Item → Kind → Prop
  | .token expected, kind => kind ≠ expected
  | .nonterminal n, kind => rules n kind = none
  | .action _, _ => False

/-- A step fails at a token if that is the first one ahead and does not go with the item. -/
theorem step_error_at_iff :
    (∃ e, Parser.step rules p item = .error e ∧ e.token? = some token) ↔
      p.stream.ahead.head? = some token ∧ Refuses item token.kind := by
  constructor
  · rintro ⟨e, hstep, htoken⟩
    cases item with
    | token kind =>
      rcases step_token_eq_error.mp hstep with ⟨cause, -, rfl⟩ | ⟨found, hnext, hkind, rfl⟩
      · cases htoken
      · cases htoken
        have hahead := TokenStream.ahead_of_next_ok (Prod.ext hnext rfl)
        exact ⟨by rw [hahead, List.head?_cons], hkind⟩
    | nonterminal n =>
      rcases step_nonterminal_eq_error.mp hstep with ⟨cause, -, rfl⟩ | ⟨found, hpeek, hrule, rfl⟩
      · cases htoken
      · cases htoken
        obtain ⟨-, tokens, hahead⟩ := TokenStream.ahead_of_peek_ok (Prod.ext hpeek rfl)
        exact ⟨by rw [hahead, List.head?_cons], hrule⟩
    | action a =>
      obtain ⟨cause, -, rfl⟩ := step_action_eq_error.mp hstep
      cases htoken
  · rintro ⟨hhead, hrefuses⟩
    obtain ⟨tokens, hahead⟩ := List.head?_eq_some_iff.mp hhead
    cases item with
    | token kind =>
      obtain ⟨stream, hnext, -⟩ := TokenStream.next_of_ahead_cons hahead
      exact ⟨_, step_token_eq_error.mpr (.inr ⟨token, congrArg Prod.fst hnext, hrefuses, rfl⟩), rfl⟩
    | nonterminal n =>
      obtain ⟨stream, hpeek, -⟩ := TokenStream.peek_of_ahead_cons hahead
      exact ⟨_, step_nonterminal_eq_error.mpr
        (.inr ⟨token, congrArg Prod.fst hpeek, hrefuses, rfl⟩), rfl⟩
    | action a => exact hrefuses.elim

/-- Where a parser fails at a token, so does one that is alike. -/
theorem Alike.step_error (h : Alike (count + 1) p q)
    (hstep : Parser.step rules { p with items } item = .error e) (htoken : e.token? = some token) :
    ∃ other e', Parser.step rules { q with items } item = .error e' ∧ e'.token? = some other := by
  obtain ⟨hhead, hrefuses⟩ := step_error_at_iff.mp ⟨e, hstep, htoken⟩
  obtain ⟨tokens, htokens⟩ := List.head?_eq_some_iff.mp hhead
  obtain ⟨other, others, hahead, hmark, -⟩ := h.exists_ahead htokens
  have hkind : other.kind = token.kind := congrArg Prod.fst hmark
  exact ⟨other, step_error_at_iff.mpr ⟨by simp [hahead], hkind ▸ hrefuses⟩⟩

/-- Parsing a stream takes some tokens and fails at the next step. -/
def StopsAfter (stream : TokenStream) (taken : List Token) (e : ParseError) : Prop :=
  ∃ q item items, Reaches { stream } taken q ∧ q.items = item :: items ∧
    Parser.step rules { q with items } item = .error e

variable {text : String} {stream : TokenStream}

theorem StopsAfter.parseStream_eq (h : StopsAfter stream taken e) :
    parseStream rules stream = .error e := by
  obtain ⟨q, item, items, hreaches, hitems, hstep⟩ := h
  rw [parseStream,
    run_error_of_reaches hreaches hitems hstep (run_budget_ne_endless stream)]

theorem exists_stopsAfter (hparse : parse text = .error e) :
    ∃ taken, StopsAfter (.ofText text) taken e := by
  rw [parse, parseWith, parseStream] at hparse
  cases hrun : run rules (rules.budget (TokenStream.ofText text).size)
      { stream := .ofText text } with
  | ok final =>
    obtain ⟨taken, hreaches, hdone⟩ := reaches_of_run hrun
    obtain ⟨program, -, hnodes⟩ := hreaches.isParsed hdone
    simp [hrun, hnodes] at hparse
  | error cause =>
    have hends := run_budget_ne_endless (.ofText text)
    obtain ⟨taken, q, item, items, hreaches, hitems, hstep⟩ :=
      exists_step_of_run_error hrun fun he => hends (he ▸ hrun)
    rw [hrun] at hparse
    cases hparse
    exact ⟨taken, q, item, items, hreaches, hitems, hstep⟩

/-- A failure at a token is one at the token that follows those taken. -/
theorem StopsAfter.getElem? (h : StopsAfter (.ofText text) taken e)
    (htoken : e.token? = some token) :
    (Scanner.ofText text).drain.1[taken.length]? = some token := by
  obtain ⟨q, item, items, hreaches, hitems, hstep⟩ := h
  obtain ⟨s, hstream, hdrain⟩ := hreaches.drain rfl
  have hhead : q.stream.ahead.head? = some token := (step_error_at_iff.mp ⟨e, hstep, htoken⟩).1
  rw [hdrain, List.getElem?_append_right (Nat.le_refl _), Nat.sub_self, ← List.head?_eq_getElem?]
  rwa [hstream] at hhead

/-- Parsing a text stops at a token, or at a lexical fault when it has taken all tokens. -/
theorem StopsAfter.cases (h : StopsAfter (.ofText text) taken e) :
    (∃ token, e.token? = some token) ∨
      ∃ fault, e = .scan (.lexical fault) ∧ (Scanner.ofText text).drain.1 = taken ∧
        (Scanner.ofText text).drain.2.1 = some (.lexical fault) := by
  obtain ⟨q, item, items, hreaches, hitems, hstep⟩ := h
  have hworks := (worksOn_ofText text).of_reaches hreaches
  have hreports := hworks.reports hitems hstep
  cases e with
  | unexpected expected token => exact .inl ⟨token, rfl⟩
  | noRule n options token => exact .inl ⟨token, rfl⟩
  | scan cause =>
    obtain ⟨fault, rfl⟩ := hreports
    obtain ⟨s, hstream, hdrain⟩ := hreaches.drain rfl
    obtain ⟨s', hstream', hopen, -⟩ := hworks.scanning hitems
    cases hstream.symm.trans hstream'
    have hnext : s.next.1 = .error (.lexical fault) := by
      cases item with
      | token kind => simpa [step_token_eq_error, hstream, TokenStream.next] using hstep
      | nonterminal n =>
        simpa [step_nonterminal_eq_error, hstream, TokenStream.peek, Scanner.peek_fst] using hstep
      | action a => simp [step_action_eq_error] at hstep
    rw [Scanner.drain_of_next_error hopen (Prod.ext hnext rfl), List.append_nil] at hdrain
    exact .inr ⟨fault, rfl, by rw [hdrain], by rw [hdrain]⟩
  | _ => exact hreports.elim

/-- Where parsing a text stops at a token, parsing a stream with the same kinds and values up to
    that token stops at its token of the same number. -/
theorem StopsAfter.of_marks (h : StopsAfter (.ofText text) taken e) (htoken : e.token? = some token)
    (hmarks : (stream.ahead.map Token.mark).take (taken.length + 1) =
      ((Scanner.ofText text).drain.1.map Token.mark).take (taken.length + 1)) :
    ∃ others e' other, StopsAfter stream others e' ∧ others.length = taken.length ∧
      e'.token? = some other := by
  obtain ⟨q, item, items, hreaches, hitems, hstep⟩ := h
  have halike : Alike (taken.length + 1) { stream := .ofText text } { stream } :=
    ⟨rfl, rfl, rfl, hmarks.symm⟩
  obtain ⟨others, r, hothers, htaken, hstop⟩ := halike.reaches hreaches (Nat.lt_succ_self _)
  have hone : taken.length + 1 - taken.length = 0 + 1 := by omega
  rw [hone] at hstop
  obtain ⟨other, e', hfails, hother⟩ := hstop.step_error hstep htoken
  refine ⟨others, e', other, ⟨r, item, items, hothers, hstop.items ▸ hitems, hfails⟩, ?_, hother⟩
  simpa using congrArg List.length htaken

/-- A text is parsed as a program if one with the same kinds and values of tokens is. -/
theorem parse_ok_of_marks {other : String} {program : Program}
    (hmarks : (Scanner.ofText other).drain.1.map Token.mark =
      (Scanner.ofText text).drain.1.map Token.mark) (hparse : parse text = .ok program) :
    parse other = .ok program := by
  obtain ⟨final, hrun, hnodes⟩ := parse_eq_ok_iff.mp hparse
  obtain ⟨taken, hreaches, hdone⟩ := reaches_of_run hrun
  have halike : Alike (taken.length + 1) { stream := .ofText text } { stream := .ofText other } :=
    ⟨rfl, rfl, rfl, congrArg _ hmarks.symm⟩
  obtain ⟨others, r, hothers, -, hend⟩ := halike.reaches hreaches (Nat.lt_succ_self _)
  have hrun' := run_of_reaches hothers (hend.items ▸ hdone) (run_budget_ne_endless (.ofText other))
  exact parse_eq_ok_iff.mpr ⟨r, hrun', hend.nodes ▸ hnodes⟩

/-- Where parsing a text fails, it fails for every text with the same kinds and values of tokens, at
    the token of the same number. -/
theorem parse_error_of_marks {other : String} {tokens others : List Token} {last final : Scanner}
    (hscan : (Scanner.ofText text).drain = (tokens, none, last))
    (hother : (Scanner.ofText other).drain = (others, none, final))
    (hmarks : others.map Token.mark = tokens.map Token.mark) (hparse : parse text = .error e) :
    ∃ (e' : ParseError) (token token' : Token) (index : Nat), parse other = .error e' ∧
      e.token? = some token ∧ e'.token? = some token' ∧ tokens[index]? = some token ∧
      others[index]? = some token' := by
  obtain ⟨taken, hstops⟩ := exists_stopsAfter hparse
  rcases hstops.cases with ⟨token, htoken⟩ | ⟨fault, -, -, hfault⟩
  · have hahead : (TokenStream.ofText other).ahead.map Token.mark =
        (Scanner.ofText text).drain.1.map Token.mark := by
      rw [hscan, ← hmarks]
      exact congrArg (List.map Token.mark) (congrArg Prod.fst hother)
    obtain ⟨passed, e', token', hstops', hlength, htoken'⟩ :=
      hstops.of_marks htoken (congrArg _ hahead)
    have hindex := hstops.getElem? htoken
    have hindex' := hstops'.getElem? htoken'
    rw [hscan] at hindex
    rw [hother, hlength] at hindex'
    exact ⟨e', token, token', _, hstops'.parseStream_eq, htoken, htoken', hindex, hindex'⟩
  · rw [hscan] at hfault
    cases hfault

/-- Layout has no meaning. Where a text is scanned without a fault, blanks and comments may be put
    in immediately before or behind each lexeme without changing the kinds and values of the tokens.
    Texts whose tokens have the same kinds and values are parsed as the same program, or parsing
    fails for both at tokens of the same number. -/
theorem layout_keeps_meaning :
    (∀ (text : String) (tokens : List Token) (last : Scanner) (token : Token) (offset : Nat)
        (layout : List Char),
      (Scanner.ofText text).drain = (tokens, none, last) → token ∈ tokens →
      ((offset : Int) = token.position.offset ∨
        (offset : Int) = token.position.offset + token.spelling.length) → IsGap layout →
      ∃ others final,
        (Scanner.ofText (String.ofList (insertAt text.toList offset layout))).drain =
          (others, none, final) ∧ others.map Token.mark = tokens.map Token.mark) ∧
    ∀ (text other : String) (tokens others : List Token) (last final : Scanner),
      (Scanner.ofText text).drain = (tokens, none, last) →
      (Scanner.ofText other).drain = (others, none, final) →
      others.map Token.mark = tokens.map Token.mark →
      (∃ program, parse text = .ok program ∧ parse other = .ok program) ∨
        ∃ (e e' : ParseError) (token token' : Token) (index : Nat),
          parse text = .error e ∧ parse other = .error e' ∧
          e.token? = some token ∧ e'.token? = some token' ∧
          tokens[index]? = some token ∧ others[index]? = some token' := by
  constructor
  · intro text tokens last token offset layout hscan htoken hoffset hlayout
    obtain ⟨hnone, hmarks⟩ := Scanner.marks_insertAt hscan htoken hlayout hoffset
    exact ⟨_, _, Prod.ext rfl (Prod.ext hnone rfl), hmarks⟩
  · intro text other tokens others last final hscan hother hmarks
    cases hparse : parse text with
    | ok program =>
      exact .inl ⟨program, rfl, parse_ok_of_marks (by rw [hscan, hother, hmarks]) hparse⟩
    | error e =>
      obtain ⟨e', token, token', index, hfails⟩ :=
        parse_error_of_marks hscan hother hmarks hparse
      exact .inr ⟨e, e', token, token', index, rfl, hfails⟩

/-- A comment behind an opening parenthesis, where it is not taken for the start of another one. -/
theorem layout_keeps_meaning_comment :
    let text := "function f():integer f(1)"
    let other := String.ofList (insertAt text.toList 11 "(*)*)".toList)
    other = "function f((*)*)):integer f(1)" ∧ (Scanner.ofText other).drain.2.1 = none ∧
      ∃ program, parse text = .ok program ∧ parse other = .ok program := by
  have hscan : (Scanner.ofText "function f():integer f(1)").drain.2.1 = none := by decide +kernel
  have htoken : ⟨.leftParen, none, ⟨1, 11, 10⟩⟩ ∈
      (Scanner.ofText "function f():integer f(1)").drain.1 := by decide +kernel
  have hlayout : IsGap "(*)*)".toList := .comment (.char (by decide) .nil) .nil
  obtain ⟨hinsert, hparse⟩ := layout_keeps_meaning
  obtain ⟨others, final, hother, hmarks⟩ := hinsert "function f():integer f(1)" _ _ _ 11 _
    (Prod.ext rfl (Prod.ext hscan rfl)) htoken (.inr (by decide)) hlayout
  refine ⟨by decide +kernel, by rw [hother], ?_⟩
  rcases hparse _ _ _ _ _ _ (Prod.ext rfl (Prod.ext hscan rfl)) hother hmarks with
    hboth | ⟨e, -, -, -, -, hfails, -⟩
  · exact hboth
  · have hok : (parse "function f():integer f(1)").isOk = true := by decide +kernel
    rw [hfails] at hok
    cases hok

end Parser

end Klein
