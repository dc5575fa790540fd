import Klein.Proofs.Parser.Contract

namespace Klein.Parser

open Grammar

/-- A parser whose items build what is wanted from genuine tokens. -/
structure OnTrack (Q : NodeStack → Prop) (p : Parser) : Prop where
  builds : Builds Q p.items p.recent p.nodes
  genuine : ∀ token ∈ p.stream.ahead, token.Genuine

variable {Q : NodeStack → Prop} {p q : Parser} {item : Item} {items : List Item}
  {taken : List Token}

/-- A step keeps a parser on track. -/
theorem OnTrack.step (h : OnTrack Q p) (hitems : p.items = item :: items)
    (hstep : Parser.step rules { p with items } item = .ok q) : OnTrack Q q := by
  have hbuilds := h.builds
  rw [hitems] at hbuilds
  cases item with
  | token kind =>
    obtain ⟨token, stream, hnext, hkind, rfl⟩ := step_token_eq_ok.mp hstep
    have hahead : p.stream.ahead = token :: stream.ahead := TokenStream.ahead_of_next_ok hnext
    have hgenuine := h.genuine
    rw [hahead] at hgenuine
    exact ⟨hbuilds token hkind (hgenuine token (by simp)), fun t ht => hgenuine t (by simp [ht])⟩
  | nonterminal n =>
    obtain ⟨token, stream, rule, hpeek, hrule, rfl⟩ := step_nonterminal_eq_ok.mp hstep
    have hahead : stream.ahead = p.stream.ahead := (TokenStream.ahead_of_peek_ok hpeek).1
    refine ⟨?_, fun t ht => h.genuine t (hahead ▸ ht)⟩
    exact (builds_of_production (mem_productions_of_rules hrule) hbuilds).append
  | action a =>
    obtain ⟨nodes, hact, rfl⟩ := step_action_eq_ok.mp hstep
    obtain ⟨after, hafter, hrest⟩ := hbuilds
    rw [hact] at hafter
    injection hafter with _ hsame
    exact ⟨hsame ▸ hrest, h.genuine⟩

theorem OnTrack.of_reaches (h : OnTrack Q p) (hreaches : Reaches p taken q) : OnTrack Q q := by
  induction hreaches with
  | refl => exact h
  | step hitems hstep _ ih => exact ih (h.step hitems hstep)

/-- Where the table accepts the tokens ahead, the next step succeeds, and the table accepts the
    tokens that are ahead then. -/
theorem OnTrack.progress (h : OnTrack Q p) (hitems : p.items = item :: items)
    (haccepts : Accepts (erase p.items) (p.stream.ahead.map Token.kind)) :
    ∃ q, Parser.step rules { p with items } item = .ok q ∧
      Accepts (erase q.items) (q.stream.ahead.map Token.kind) := by
  rw [hitems] at haccepts
  cases item with
  | token kind =>
    rw [erase_token] at haccepts
    generalize hkinds : p.stream.ahead.map Token.kind = kinds at haccepts
    cases haccepts with
    | terminal hrest =>
      obtain ⟨token, tokens, hahead, hkind, rfl⟩ := List.map_eq_cons_iff.mp hkinds
      obtain ⟨stream, hnext, hafter, -⟩ := TokenStream.next_of_ahead_cons hahead
      refine ⟨_, step_token_eq_ok.mpr ⟨token, stream, hnext, hkind, rfl⟩, ?_⟩
      simpa only [hafter] using hrest
  | nonterminal n =>
    rw [erase_nonterminal] at haccepts
    generalize hkinds : p.stream.ahead.map Token.kind = kinds at haccepts
    cases haccepts with
    | nonterminal hrule hrest =>
      obtain ⟨token, tokens, hahead, rfl, rfl⟩ := List.map_eq_cons_iff.mp hkinds
      obtain ⟨stream, hpeek, hsame, -⟩ := TokenStream.peek_of_ahead_cons hahead
      refine ⟨_, step_nonterminal_eq_ok.mpr ⟨token, stream, _, hpeek, hrule, rfl⟩, ?_⟩
      simpa only [hsame, hahead, erase_append, List.map_cons] using hrest
  | action a =>
    have hbuilds := h.builds
    rw [hitems] at hbuilds
    obtain ⟨after, hact, -⟩ := hbuilds
    exact ⟨_, step_action_eq_ok.mpr ⟨after, hact, rfl⟩, haccepts⟩

/-- Where the table accepts the tokens ahead, a run gets to the end. -/
theorem OnTrack.reaches_end (h : OnTrack Q p)
    (haccepts : Accepts (erase p.items) (p.stream.ahead.map Token.kind)) :
    ∃ taken q, Reaches p taken q ∧ q.items = [] := by
  -- no bound on the steps is known here, but each of them lowers the cost
  induction hcost : p.cost using Nat.strong_induction_on generalizing p with
  | _ cost ih =>
    cases hitems : p.items with
    | nil => exact ⟨[], p, .refl p, hitems⟩
    | cons item items =>
      obtain ⟨q, hstep, hnext⟩ := h.progress hitems haccepts
      have hlt := cost_step_lt hitems hstep
      obtain ⟨taken, final, hreaches, hdone⟩ :=
        ih q.cost (hcost ▸ hlt) (h.step hitems hstep) hnext rfl
      exact ⟨_, final, .step hitems hstep hreaches, hdone⟩

/-- The nodes that a parse is to end with: one program. -/
def IsParsed (nodes : NodeStack) : Prop :=
  ∃ program : Program, program.Legal ∧ nodes = [.program program]

theorem onTrack_start {stream : TokenStream} (hgenuine : ∀ token ∈ stream.ahead, token.Genuine) :
    OnTrack IsParsed { stream } where
  builds := ⟨rfl, fun program hlegal _ _ _ _ => ⟨program, hlegal, rfl⟩⟩
  genuine := hgenuine

theorem onTrack_ofText (text : String) : OnTrack IsParsed { stream := .ofText text } :=
  onTrack_start (Scanner.ofText text).drain_genuine

theorem OnTrack.isParsed (h : OnTrack IsParsed p) (hreaches : Reaches p taken q)
    (hdone : q.items = []) : IsParsed q.nodes := by
  simpa [Builds, hdone] using (h.of_reaches hreaches).builds

theorem Reaches.isParsed {text : String} (hreaches : Reaches { stream := .ofText text } taken q)
    (hdone : q.items = []) : IsParsed q.nodes :=
  (onTrack_ofText text).isParsed hreaches hdone

/-- A text is parsed by the run of a parser that leaves nothing but the program. -/
theorem parse_eq_ok_iff {text : String} {program : Program} :
    parse text = .ok program ↔
      ∃ final, run rules (rules.budget (TokenStream.ofText text).size)
        { stream := .ofText text } = .ok final ∧ final.nodes = [.program program] := by
  rw [parse, parseWith, parseStream]
  cases hrun : run rules (rules.budget (TokenStream.ofText text).size)
      { stream := .ofText text } with
  | error e => simp
  | ok final =>
    obtain ⟨taken, hreaches, hdone⟩ := reaches_of_run hrun
    obtain ⟨parsed, -, hnodes⟩ := hreaches.isParsed hdone
    simp [hnodes]

/-- What is parsed from genuine tokens is legal. -/
theorem legal_of_parseStream {stream : TokenStream} {program : Program}
    (hgenuine : ∀ token ∈ stream.ahead, token.Genuine)
    (hparse : parseStream rules stream = .ok program) : program.Legal := by
  rw [parseStream] at hparse
  cases hrun : run rules (rules.budget stream.size) { stream } with
  | error e =>
    rw [hrun] at hparse
    cases hparse
  | ok final =>
    obtain ⟨taken, hreaches, hdone⟩ := reaches_of_run hrun
    obtain ⟨parsed, hlegal, hnodes⟩ := (onTrack_start hgenuine).isParsed hreaches hdone
    simp only [hrun, hnodes, Except.ok.injEq] at hparse
    exact hparse ▸ hlegal

theorem legal_of_parse {text : String} {program : Program} (hparse : parse text = .ok program) :
    program.Legal := by
  rw [parse, parseWith] at hparse
  exact legal_of_parseStream (onTrack_ofText text).genuine hparse

/-- A run that is done has taken a sentence of the grammar and the end of the text. -/
theorem Reaches.sentence {stream : TokenStream} (hreaches : Reaches { stream } taken q)
    (hdone : q.items = []) :
    ∃ (body : List Token) (eof : Token), taken = body ++ [eof] ∧ eof.kind = .endOfFile ∧
      body.map Token.kind ∈ klein.language := by
  have hnil : Yields (erase q.items) [] := by
    rw [hdone]
    exact .nil
  obtain ⟨word, hword, hsplit⟩ := exists_word_of_yields (hreaches.yields hnil)
  rw [List.append_nil] at hsplit
  obtain ⟨body, ends, rfl, hbody, hends⟩ := List.map_eq_append_iff.mp hsplit
  obtain ⟨eof, rfl, heof⟩ := List.map_eq_singleton_iff.mp hends
  exact ⟨body, eof, rfl, heof, hbody ▸ hword⟩

/-- A run that is done has taken all tokens of its text, and its scanner is at the end. -/
theorem Reaches.all_taken {text : String} {tokens : List Token} {last : Scanner}
    (hscan : (Scanner.ofText text).drain = (tokens, none, last))
    (hreaches : Reaches { stream := .ofText text } taken q) (hdone : q.items = []) :
    taken = tokens ∧ ∃ s, q.stream = .scanner s ∧ s.terminated = true := by
  obtain ⟨s, hstream, hdrain⟩ := hreaches.drain rfl
  obtain ⟨body, eof, rfl, heof, -⟩ := hreaches.sentence hdone
  obtain ⟨others, final, hall, -, hothers, -⟩ := Scanner.drain_ok rfl hscan
  rw [hscan] at hdrain
  injection hdrain with htokens hrest
  -- The end of a text is only found once, so nothing can follow it.
  have hnothing : s.drain.1 = [] := by
    rcases List.eq_nil_or_concat s.drain.1 with hnil | ⟨more, token, hmore⟩
    · exact hnil
    · rw [hall, hmore, List.concat_eq_append, ← List.append_assoc] at htokens
      have hinner := List.append_inj_left' htokens rfl
      exact absurd heof (hothers eof (by simp [hinner]))
  refine ⟨by rw [htokens, hnothing, List.append_nil], s, hstream, ?_⟩
  cases hopen : s.terminated with
  | true => rfl
  | false =>
    have hend : s.drain = ([], none, last) := Prod.ext hnothing hrest.symm
    obtain ⟨before, eof', hnil, -⟩ := Scanner.drain_ok hopen hend
    simp at hnil

/-- A text whose tokens are a sentence of the grammar is parsed. -/
theorem exists_parse_of_mem_language {text : String} {body : List Token} {eof : Token}
    {last : Scanner} (hscan : (Scanner.ofText text).drain = (body ++ [eof], none, last))
    (heof : eof.kind = .endOfFile) (hbody : body.map Token.kind ∈ klein.language) :
    ∃ program, parse text = .ok program := by
  have hahead : (TokenStream.ofText text).ahead = body ++ [eof] := congrArg Prod.fst hscan
  obtain ⟨taken, final, hreaches, hdone⟩ := (onTrack_ofText text).reaches_end (by
    simp only [hahead, List.map_append, List.map_cons, List.map_nil, heof]
    exact accepts_of_mem_language hbody)
  obtain ⟨program, -, hnodes⟩ := hreaches.isParsed hdone
  have hrun := run_of_reaches hreaches hdone (run_budget_ne_endless (.ofText text))
  exact ⟨program, parse_eq_ok_iff.mpr ⟨final, hrun, hnodes⟩⟩

/-- A text whose scan succeeds is parsed if and only if the kinds of its tokens are a sentence of
    the grammar, and then each of its tokens has been taken once and the scanner is at the end. -/
theorem parse_ok_iff_mem_language {text : String} {tokens : List Token} {last : Scanner}
    (hscan : (Scanner.ofText text).drain = (tokens, none, last)) :
    ∃ body eof, tokens = body ++ [eof] ∧ eof.kind = .endOfFile ∧
      ((∃ program, parse text = .ok program) ↔ body.map Token.kind ∈ klein.language) ∧
      ∀ program, parse text = .ok program →
        ∃ final s, run rules (rules.budget (TokenStream.ofText text).size)
            { stream := .ofText text } = .ok final ∧ final.nodes = [.program program] ∧
          Reaches { stream := .ofText text } tokens final ∧
          final.stream = .scanner s ∧ s.terminated = true := by
  obtain ⟨body, eof, rfl, heof, -⟩ := Scanner.drain_ok rfl hscan
  refine ⟨body, eof, rfl, heof, ⟨?_, exists_parse_of_mem_language hscan heof⟩, ?_⟩
  · rintro ⟨program, hparse⟩
    obtain ⟨final, hrun, -⟩ := parse_eq_ok_iff.mp hparse
    obtain ⟨taken, hreaches, hdone⟩ := reaches_of_run hrun
    obtain ⟨rfl, -⟩ := hreaches.all_taken hscan hdone
    obtain ⟨sentence, last, hsame, -, hmem⟩ := hreaches.sentence hdone
    rw [List.append_inj_left' hsame rfl]
    exact hmem
  · intro program hparse
    obtain ⟨final, hrun, hnodes⟩ := parse_eq_ok_iff.mp hparse
    obtain ⟨taken, hreaches, hdone⟩ := reaches_of_run hrun
    obtain ⟨rfl, s, hstream, hend⟩ := hreaches.all_taken hscan hdone
    exact ⟨final, s, hrun, hnodes, hreaches, hstream, hend⟩

/-- The sum can be read as the last branch or as an operation on the conditional; either way the
    text is a sentence, and it is parsed. -/
theorem parse_ok_iff_mem_language_conditional :
    (Scanner.ofText "function main():integer if true then 1 else 2 + 3").drain.2.1 = none ∧
      ∃ body eof,
        (Scanner.ofText "function main():integer if true then 1 else 2 + 3").drain.1 =
          body ++ [eof] ∧ body.map Token.kind ∈ klein.language := by
  have hscan : (Scanner.ofText "function main():integer if true then 1 else 2 + 3").drain.2.1 =
      none := by decide +kernel
  refine ⟨hscan, ?_⟩
  obtain ⟨body, eof, htokens, -, hiff, -⟩ := parse_ok_iff_mem_language
    (Prod.ext rfl (Prod.ext hscan rfl))
  refine ⟨body, eof, htokens, hiff.mp ?_⟩
  have hparse : (parse "function main():integer if true then 1 else 2 + 3").isOk = true := by
    decide +kernel
  cases hresult : parse "function main():integer if true then 1 else 2 + 3" with
  | ok program => exact ⟨program, rfl⟩
  | error e => simp [hresult, Except.isOk, Except.toBool] at hparse

end Klein.Parser
