import Klein.Proofs.Parser.Acceptance
import Klein.Proofs.Scanner.Positions

namespace Klein

open Grammar

/-- A failure that reports something in a text: a lexical fault, a token other than the expected
    one, or a token before which a nonterminal has no rule although it has some. The token stands
    on a line of the text. -/
def ParseError.Reports (text : String) : ParseError → Prop
  | .scan e => ∃ cause, e = .lexical cause
  | .unexpected expected token =>
    token.kind ≠ expected ∧ ∃ line, sourceLine text (token.position.line - 1) = .ok line
  | .noRule n options token =>
    rules n token.kind = none ∧ options ≠ [] ∧
      (∀ kind, kind ∈ options ↔ (rules n kind).isSome = true) ∧
      ∃ line, sourceLine text (token.position.line - 1) = .ok line
  | _ => False

namespace Parser

/-- A parser that works on a text. The end of the text is the last item and the only one of its
    kind, and the scanner has not come to it before. -/
structure WorksOn (text : String) (p : Parser) : Prop where
  onTrack : OnTrack IsParsed p
  placed : ∀ token ∈ p.stream.ahead, ∃ line, sourceLine text (token.position.line - 1) = .ok line
  framed : p.items = [] ∨ ∃ front s, p.items = front ++ [.token .endOfFile] ∧
    .token .endOfFile ∉ front ∧ p.stream = .scanner s ∧ s.terminated = false

variable {text : String} {p q : Parser} {item : Item} {items : List Item} {taken : List Token}
  {e : ParseError}

theorem worksOn_ofText (text : String) : WorksOn text { stream := .ofText text } where
  onTrack := onTrack_ofText text
  placed := fun _ hmem =>
    let ⟨line, hline, _⟩ := ((Scanner.standsIn_ofText text).shownIn_of_mem_drain hmem).line
    ⟨line, hline⟩
  framed := .inr ⟨[.nonterminal .program], .ofText text, rfl, by decide, rfl, rfl⟩

/-- No rule asks for the end of the text. -/
theorem endOfFile_not_mem_rule {n : Nonterminal} {k : Kind} {rule : List Item}
    (hrule : rules n k = some rule) : .token .endOfFile ∉ rule := by
  have hall : ∀ n ∈ Nonterminal.all, ∀ k ∈ Kind.all, ∀ rule ∈ rules n k,
      Item.token .endOfFile ∉ rule := by decide +kernel
  exact hall n n.mem_all k k.mem_all rule hrule

/-- With an item left the scanner is not at its end, and other items than the end of the text have
    some behind them. -/
theorem WorksOn.scanning (h : WorksOn text p) (hitems : p.items = item :: items) :
    ∃ s, p.stream = .scanner s ∧ s.terminated = false ∧
      ((item = .token .endOfFile ∧ items = []) ∨ item ≠ .token .endOfFile ∧
        ∃ front : List Item, items = front ++ [.token .endOfFile] ∧
          .token .endOfFile ∉ front) := by
  rcases h.framed with hnil | ⟨front, s, hframe, hfree, hstream, hopen⟩
  · simp [hnil] at hitems
  refine ⟨s, hstream, hopen, ?_⟩
  rw [hitems] at hframe
  cases front with
  | nil =>
    injection hframe with hitem hnil
    exact .inl ⟨hitem, hnil⟩
  | cons first front =>
    injection hframe with hitem hrest
    subst hitem
    simp only [List.mem_cons, not_or] at hfree
    exact .inr ⟨Ne.symm hfree.1, front, hrest, hfree.2⟩

/-- A step keeps a parser at work on its text. -/
theorem WorksOn.step (h : WorksOn text p) (hitems : p.items = item :: items)
    (hstep : Parser.step rules { p with items } item = .ok q) : WorksOn text q := by
  refine ⟨h.onTrack.step hitems hstep, ?_, ?_⟩
  · cases item with
    | token kind =>
      obtain ⟨token, stream, hnext, -, rfl⟩ := step_token_eq_ok.mp hstep
      have hahead : p.stream.ahead = token :: stream.ahead := TokenStream.ahead_of_next_ok hnext
      exact fun other hother => h.placed other (by simp [hahead, hother])
    | nonterminal n =>
      obtain ⟨token, stream, rule, hpeek, -, rfl⟩ := step_nonterminal_eq_ok.mp hstep
      have hahead : stream.ahead = p.stream.ahead := (TokenStream.ahead_of_peek_ok hpeek).1
      exact fun other hother => h.placed other (hahead ▸ hother)
    | action a =>
      obtain ⟨nodes, -, rfl⟩ := step_action_eq_ok.mp hstep
      exact h.placed
  · obtain ⟨s, hstream, hopen, hplace⟩ := h.scanning hitems
    cases item with
    | token kind =>
      obtain ⟨token, stream, hnext, hkind, rfl⟩ := step_token_eq_ok.mp hstep
      rcases hplace with ⟨-, rfl⟩ | ⟨hother, front, rfl, hfree⟩
      · exact .inl rfl
      · simp only [hstream, TokenStream.next, Prod.mk.injEq] at hnext
        obtain ⟨hfound, rfl⟩ := hnext
        have hend := Scanner.next_terminated (Prod.ext hfound rfl)
        refine .inr ⟨front, s.next.2, rfl, hfree, rfl, ?_⟩
        rw [hend, decide_eq_false_iff_not, hkind]
        exact fun heof => hother (heof ▸ rfl)
    | nonterminal n =>
      obtain ⟨token, stream, rule, hpeek, hrule, rfl⟩ := step_nonterminal_eq_ok.mp hstep
      obtain ⟨front, rfl, hfree⟩ : ∃ front : List Item, items = front ++ [.token .endOfFile] ∧
          .token .endOfFile ∉ front := by simpa using hplace
      simp only [hstream, TokenStream.peek, Prod.mk.injEq] at hpeek
      obtain ⟨hfound, rfl⟩ := hpeek
      have hstill := (Scanner.terminated_of_peek_ok (Prod.ext hfound rfl)).2
      refine .inr ⟨rule ++ front, s.peek.2, by simp, ?_, rfl, hstill⟩
      simpa using ⟨endOfFile_not_mem_rule hrule, hfree⟩
    | action a =>
      obtain ⟨nodes, -, rfl⟩ := step_action_eq_ok.mp hstep
      obtain ⟨front, rfl, hfree⟩ : ∃ front : List Item, items = front ++ [.token .endOfFile] ∧
          .token .endOfFile ∉ front := by simpa using hplace
      exact .inr ⟨front, s, rfl, hfree, hstream, hopen⟩

theorem WorksOn.of_reaches (h : WorksOn text p) (hreaches : Reaches p taken q) :
    WorksOn text q := by
  induction hreaches with
  | refl => exact h
  | step hitems hstep _ ih => exact ih (h.step hitems hstep)

/-- No action fails. -/
theorem WorksOn.acts (h : WorksOn text p) {a : Action} (hitems : p.items = .action a :: items) :
    ∃ nodes, p.nodes.act p.recent a = (.ok (), nodes) := by
  have hbuilds := h.onTrack.builds
  rw [hitems] at hbuilds
  obtain ⟨nodes, hact, -⟩ := hbuilds
  exact ⟨nodes, hact⟩

/-- A step that fails reports something in the text. -/
theorem WorksOn.reports (h : WorksOn text p) (hitems : p.items = item :: items)
    (hstep : Parser.step rules { p with items } item = .error e) : e.Reports text := by
  obtain ⟨s, hstream, hopen, -⟩ := h.scanning hitems
  cases item with
  | token kind =>
    rcases step_token_eq_error.mp hstep with ⟨cause, hnext, rfl⟩ | ⟨token, hnext, hkind, rfl⟩
    · simp only [hstream, TokenStream.next] at hnext
      exact Scanner.lexical_of_next_error hopen hnext
    · have hahead : p.stream.ahead = token :: _ :=
        TokenStream.ahead_of_next_ok (Prod.ext hnext rfl)
      exact ⟨hkind, h.placed token (by simp [hahead])⟩
  | nonterminal n =>
    rcases step_nonterminal_eq_error.mp hstep with ⟨cause, hpeek, rfl⟩ | ⟨token, hpeek, hrule, rfl⟩
    · simp only [hstream, TokenStream.peek, Scanner.peek_fst] at hpeek
      exact Scanner.lexical_of_next_error hopen hpeek
    · obtain ⟨-, tokens, hahead⟩ := TokenStream.ahead_of_peek_ok (Prod.ext hpeek rfl)
      simp only at hahead
      refine ⟨hrule, options_ne_nil n, fun kind => ?_, h.placed token (by simp [hahead])⟩
      simp [Rules.options, kind.mem_all]
  | action a =>
    obtain ⟨cause, hact, -⟩ := step_action_eq_error.mp hstep
    obtain ⟨nodes, hok⟩ := h.acts hitems
    simp [hok] at hact

/-- What holds of every parser that a run on a text comes to: it asks its scanner for tokens only
    before the scanner's end, its actions find what they need, a step that fails reports something
    in the text, and at the end there is one program and nothing else. -/
structure Proper (text : String) (p : Parser) : Prop where
  scans : p.items ≠ [] → ∃ s, p.stream = .scanner s ∧ s.terminated = false
  acts : ∀ a items, p.items = .action a :: items →
    ∃ nodes, p.nodes.act p.recent a = (.ok (), nodes)
  reports : ∀ item items e, p.items = item :: items →
    Parser.step rules { p with items } item = .error e → e.Reports text
  builds : p.items = [] → ∃ program, p.nodes = [.program program]

theorem WorksOn.proper (h : WorksOn text p) : Proper text p where
  scans hne := by
    obtain ⟨item, items, hitems⟩ := List.exists_cons_of_ne_nil hne
    obtain ⟨s, hstream, hopen, -⟩ := h.scanning hitems
    exact ⟨s, hstream, hopen⟩
  acts _ _ := h.acts
  reports _ _ _ := h.reports
  builds hnil := by
    have hbuilds := h.onTrack.builds
    rw [hnil] at hbuilds
    obtain ⟨program, -, hnodes⟩ := hbuilds
    exact ⟨program, hnodes⟩

/-- Parsing a text comes to an end, with a program or with a failure that reports something in the
    text, and every parser that it comes to on the way is proper. This is parsing without a limit on
    how deep it nests: within a `Nesting`, a piece of the text that is too deep ends it as well. -/
theorem parse_proper (text : String) :
    ((∃ program, parse text = .ok program) ∨ ∃ e, parse text = .error e ∧ e.Reports text) ∧
      (∀ more, run rules (rules.budget (TokenStream.ofText text).size + more)
          { stream := .ofText text } =
        run rules (rules.budget (TokenStream.ofText text).size) { stream := .ofText text }) ∧
      ∀ taken p, Reaches { stream := .ofText text } taken p → Proper text p := by
  have hends := run_budget_ne_endless (.ofText text)
  have hworks : ∀ {taken p}, Reaches { stream := .ofText text } taken p → WorksOn text p :=
    fun hreaches => (worksOn_ofText text).of_reaches hreaches
  refine ⟨?_, run_add hends, fun _ _ hreaches => (hworks hreaches).proper⟩
  cases hrun : run rules (rules.budget (TokenStream.ofText text).size)
      { stream := .ofText text } with
  | error e =>
    obtain ⟨taken, q, item, items, hreaches, hitems, hstep⟩ :=
      exists_step_of_run_error hrun (fun he => hends (he ▸ hrun))
    refine .inr ⟨e, ?_, (hworks hreaches).reports hitems hstep⟩
    rw [parse, parseWith, parseStream, hrun]
  | ok final =>
    obtain ⟨taken, hreaches, hdone⟩ := reaches_of_run hrun
    obtain ⟨program, hnodes⟩ := (hworks hreaches).proper.builds hdone
    exact .inl ⟨program, parse_eq_ok_iff.mpr ⟨final, hrun, hnodes⟩⟩

/-- A text that ends too early is reported, by a parser that is proper from the start. -/
theorem parse_proper_unclosed :
    (∃ e, parse "function main(" = .error e ∧ e.Reports "function main(") ∧
      ∃ p, Reaches { stream := .ofText "function main(" } [] p ∧ p.items ≠ [] ∧
        Proper "function main(" p := by
  obtain ⟨hresult, -, hproper⟩ := parse_proper "function main("
  refine ⟨?_, _, .refl _, by decide, hproper _ _ (.refl _)⟩
  rcases hresult with ⟨program, hparse⟩ | hreport
  · have hfails : (parse "function main(").isOk = false := by decide +kernel
    rw [hparse] at hfails
    cases hfails
  · exact hreport

end Parser

end Klein
