import Klein.Proofs.Scanner.Ahead
import Klein.Proofs.Grammar.Prediction

namespace Klein.Parser

open Grammar

theorem step_token_eq_ok {p q : Parser} {kind : Kind} :
    p.step rules (.token kind) = .ok q ↔
      ∃ token stream, p.stream.next = (.ok token, stream) ∧ token.kind = kind ∧
        q = { p with stream, recent := some token } := by
  rcases hnext : p.stream.next with ⟨e | token, stream⟩
  · simp [step, hnext]
  · by_cases hkind : token.kind = kind
    · simp [step, hnext, hkind, eq_comm]
    · simp [step, hnext, hkind]

theorem step_nonterminal_eq_ok {p q : Parser} {n : Nonterminal} :
    p.step rules (.nonterminal n) = .ok q ↔
      ∃ token stream rule, p.stream.peek = (.ok token, stream) ∧ rules n token.kind = some rule ∧
        q = { p with items := rule ++ p.items, stream, recent := some token } := by
  rcases hpeek : p.stream.peek with ⟨e | token, stream⟩
  · simp [step, hpeek]
  · cases hrule : rules n token.kind with
    | none =>
      simp only [step, hpeek, hrule]
      split <;> simp [hrule]
    | some rule => simp [step, hpeek, hrule, eq_comm]

theorem step_action_eq_ok {p q : Parser} {action : Action} :
    p.step rules (.action action) = .ok q ↔
      ∃ nodes, p.nodes.act p.recent action = (.ok (), nodes) ∧ q = { p with nodes } := by
  rcases hact : p.nodes.act p.recent action with ⟨e | ⟨⟩, nodes⟩
  · simp [step, hact]
  · simp [step, hact, eq_comm]

/-- Every nonterminal has a rule before some token. -/
theorem options_ne_nil (n : Nonterminal) : rules.options n ≠ [] := by
  have hall : ∀ n ∈ Nonterminal.all, rules.options n ≠ [] := by decide +kernel
  exact hall n n.mem_all

theorem step_token_eq_error {p : Parser} {kind : Kind} {e : ParseError} :
    p.step rules (.token kind) = .error e ↔
      (∃ cause, p.stream.next.1 = .error cause ∧ e = .scan cause) ∨
        ∃ token, p.stream.next.1 = .ok token ∧ token.kind ≠ kind ∧ e = .unexpected kind token := by
  rcases hnext : p.stream.next with ⟨cause | token, stream⟩
  · simp [step, hnext, eq_comm]
  · by_cases hkind : token.kind = kind
    · simp [step, hnext, hkind]
    · simpa [step, hnext, hkind] using eq_comm

theorem step_nonterminal_eq_error {p : Parser} {n : Nonterminal} {e : ParseError} :
    p.step rules (.nonterminal n) = .error e ↔
      (∃ cause, p.stream.peek.1 = .error cause ∧ e = .scan cause) ∨
        ∃ token, p.stream.peek.1 = .ok token ∧ rules n token.kind = none ∧
          e = .noRule n (rules.options n) token := by
  rcases hpeek : p.stream.peek with ⟨cause | token, stream⟩
  · simp [step, hpeek, eq_comm]
  · cases hrule : rules n token.kind with
    | none => simpa [step, hpeek, hrule, options_ne_nil] using eq_comm
    | some rule => simp [step, hpeek, hrule]

theorem step_action_eq_error {p : Parser} {action : Action} {e : ParseError} :
    p.step rules (.action action) = .error e ↔
      ∃ cause, (p.nodes.act p.recent action).1 = .error cause ∧ e = .build cause := by
  rcases hact : p.nodes.act p.recent action with ⟨cause | ⟨⟩, nodes⟩
  · simp [step, hact, eq_comm]
  · simp [step, hact]

/-- The token that a step has taken: the one read last, if the step was to match a token. -/
def takenBy (item : Item) (after : Parser) : List Token :=
  match item with
  | .token _ => after.recent.toList
  | _ => []

/-- Some steps lead from a parser to another one and take tokens on the way. -/
inductive Reaches : Parser → List Token → Parser → Prop
  | refl (p : Parser) : Reaches p [] p
  | step {p q r : Parser} {item : Item} {items : List Item} {taken : List Token} :
      p.items = item :: items → Parser.step rules { p with items } item = .ok q →
      Reaches q taken r → Reaches p (takenBy item q ++ taken) r

theorem Reaches.trans {p q r : Parser} {taken others : List Token} (hpq : Reaches p taken q)
    (hqr : Reaches q others r) : Reaches p (taken ++ others) r := by
  induction hpq with
  | refl => exact hqr
  | step hitems hstep _ ih =>
    rw [List.append_assoc]
    exact .step hitems hstep (ih hqr)

theorem reaches_of_run {fuel : Nat} {p q : Parser} (hrun : run rules fuel p = .ok q) :
    ∃ taken, Reaches p taken q ∧ q.items = [] := by
  fun_induction run rules fuel p with
  | case1 fuel p hitems =>
    injection hrun with hq
    subst hq
    exact ⟨[], .refl p, hitems⟩
  | case2 => cases hrun
  | case3 p item items fuel hitems next hstep ih =>
    obtain ⟨taken, hreaches, hdone⟩ := ih hrun
    exact ⟨_, .step hitems hstep hreaches, hdone⟩
  | case4 => cases hrun

/-- A run that does not run out of steps comes to where the steps lead, and goes on from there. -/
theorem run_eq_of_reaches {fuel : Nat} {p q : Parser} {taken : List Token}
    (hreaches : Reaches p taken q) (hends : run rules fuel p ≠ .error .endless) :
    ∃ left, run rules fuel p = run rules left q := by
  induction hreaches generalizing fuel with
  | refl p => exact ⟨fuel, rfl⟩
  | @step p q r item items taken hitems hstep _ ih =>
    cases fuel with
    | zero =>
      unfold run at hends
      simp [hitems] at hends
    | succ fuel =>
      have hrun : run rules (fuel + 1) p = run rules fuel q := by
        conv_lhs => unfold run
        simp only [hitems, hstep]
      rw [hrun] at hends ⊢
      exact ih hends

theorem run_of_reaches {fuel : Nat} {p q : Parser} {taken : List Token}
    (hreaches : Reaches p taken q) (hdone : q.items = [])
    (hends : run rules fuel p ≠ .error .endless) : run rules fuel p = .ok q := by
  obtain ⟨left, hrun⟩ := run_eq_of_reaches hreaches hends
  rw [hrun]
  unfold run
  rw [hdone]

theorem run_error_of_reaches {fuel : Nat} {p q : Parser} {item : Item} {items : List Item}
    {taken : List Token} {e : ParseError} (hreaches : Reaches p taken q)
    (hitems : q.items = item :: items) (hstep : step rules { q with items } item = .error e)
    (hends : run rules fuel p ≠ .error .endless) : run rules fuel p = .error e := by
  obtain ⟨left, hrun⟩ := run_eq_of_reaches hreaches hends
  rw [hrun] at hends ⊢
  unfold run at hends ⊢
  cases left with
  | zero => simp [hitems] at hends
  | succ left => simp only [hitems, hstep]

/-- How much work an item is, at most, until the next token is taken. -/
def weight : Item → Nat
  | .token _ | .action _ => 1
  | .nonterminal .program => 4
  | .nonterminal .definition => 32
  | .nonterminal .parameterList | .nonterminal .argumentList => 11
  | .nonterminal .formalParameters | .nonterminal .formalArguments => 10
  | .nonterminal .idWithType => 8
  | .nonterminal .typeName | .nonterminal .literal | .nonterminal .term => 3
  | .nonterminal .body => 9
  | .nonterminal .printExpression => 15
  | .nonterminal .expression => 7
  | .nonterminal .simpleExpression => 5
  | .nonterminal _ => 1

/-- Whether an item first of all takes a token. -/
def leads : Item → Bool
  | .token _ => true
  | .nonterminal n => n ∈ [.definition, .idWithType, .typeName, .printExpression, .literal]
  | .action _ => false

/-- The tokens that the first item is sure to take. -/
def lead (items : List Item) : Nat :=
  (items.head?.elim false leads).toNat

def load : List Item → Nat
  | [] => 0
  | item :: items => weight item + load items

/-- What may still be done: a token ahead is worth forty items, and is spent when it is sure to be
    taken. -/
def cost (p : Parser) : Nat :=
  load p.items + 40 * (p.stream.ahead.length - lead p.items)

theorem lead_le_one (items : List Item) : lead items ≤ 1 :=
  Bool.toNat_le _

theorem weight_pos (item : Item) : 0 < weight item := by
  unfold weight
  split <;> decide

theorem load_append (items others : List Item) :
    load (items ++ others) = load items + load others := by
  induction items with
  | nil => simp [load]
  | cons item items ih => rw [List.cons_append, load, load, ih, Nat.add_assoc]

theorem lead_le_append (items others : List Item) : lead items ≤ lead (items ++ others) := by
  cases items with
  | nil => exact Nat.zero_le _
  | cons item items => exact Nat.le_refl _

/-- A rule is less work than its nonterminal, also when one of them spends the token ahead. -/
theorem load_rule_lt {n : Nonterminal} {k : Kind} {rule : List Item}
    (hrule : rules n k = some rule) :
    load rule + 40 * (1 - lead rule) <
      weight (.nonterminal n) + 40 * (1 - lead [.nonterminal n]) := by
  have hall : ∀ n ∈ Nonterminal.all, ∀ k ∈ Kind.all, ∀ rule ∈ rules n k,
      load rule + 40 * (1 - lead rule) <
        weight (.nonterminal n) + 40 * (1 - lead [.nonterminal n]) := by
    decide +kernel
  exact hall n n.mem_all k k.mem_all rule hrule

/-- Each step leaves less to do. -/
theorem cost_step_lt {p q : Parser} {item : Item} {items : List Item}
    (hitems : p.items = item :: items) (hstep : step rules { p with items } item = .ok q) :
    q.cost < p.cost := by
  simp only [cost, hitems, load]
  cases item with
  | token kind =>
    obtain ⟨token, stream, hnext, -, rfl⟩ := step_token_eq_ok.mp hstep
    have hahead := TokenStream.ahead_of_next_ok hnext
    have hlead : lead (.token kind :: items) = 1 := rfl
    have hweight := weight_pos (.token kind)
    simp only at hahead
    simp only [hahead, hlead, List.length_cons]
    omega
  | nonterminal n =>
    obtain ⟨token, stream, rule, hpeek, hrule, rfl⟩ := step_nonterminal_eq_ok.mp hstep
    obtain ⟨hsame, tokens, hahead⟩ := TokenStream.ahead_of_peek_ok hpeek
    -- there is a token ahead, and whether it counts as spent depends on the first item only
    have hlt := load_rule_lt hrule
    have hlead : lead (.nonterminal n :: items) = lead [.nonterminal n] := rfl
    have hone := lead_le_one [.nonterminal n]
    have hgrow := lead_le_append rule items
    simp only at hahead
    simp only [hsame, hahead, hlead, load_append, List.length_cons]
    omega
  | action a =>
    obtain ⟨nodes, -, rfl⟩ := step_action_eq_ok.mp hstep
    have hlead : lead (.action a :: items) = 0 := rfl
    have hweight := weight_pos (.action a)
    simp only [hlead]
    omega

theorem step_ne_endless {p : Parser} {item : Item} : step rules p item ≠ .error .endless := by
  intro hstep
  cases item with
  | token kind => simpa using step_token_eq_error.mp hstep
  | nonterminal n => simpa using step_nonterminal_eq_error.mp hstep
  | action a => simpa using step_action_eq_error.mp hstep

/-- A run has fuel enough if it has as much as its parser costs. -/
theorem run_ne_endless {fuel : Nat} {p : Parser} (hcost : p.cost ≤ fuel) :
    run rules fuel p ≠ .error .endless := by
  fun_induction run rules fuel p with
  | case1 => simp
  | case2 p item items hitems =>
    have hweight := weight_pos item
    rw [cost, hitems, load] at hcost
    omega
  | case3 p item items fuel hitems next hstep ih =>
    have hlt := cost_step_lt hitems hstep
    exact ih (by omega)
  | case4 p item items fuel hitems e hstep =>
    intro hend
    rw [hend] at hstep
    exact step_ne_endless hstep

theorem budget_ge (tokens : Nat) : 40 * tokens + 5 ≤ rules.budget tokens := by
  have hwidth : 1 ≤ rules.width := by decide +kernel
  have hpow : 2 ^ 46 ≤ (rules.width + 1) ^ 46 := Nat.pow_le_pow_left (by omega) 46
  have hcount : 2 * (Nonterminal.all.length + 1) = 46 := rfl
  rw [Rules.budget, hcount, Nat.pow_eq]
  calc 40 * tokens + 5 ≤ (tokens + 3) * 2 ^ 46 := by omega
    _ ≤ (tokens + 3) * (rules.width + 1) ^ 46 := Nat.mul_le_mul_left _ hpow

/-- Parsing a stream always comes to an end. -/
theorem run_budget_ne_endless (stream : TokenStream) :
    run rules (rules.budget stream.size) { stream } ≠ .error .endless := by
  apply run_ne_endless
  have hload : load [.nonterminal .program, .token .endOfFile] = 5 := rfl
  have hlength := stream.ahead_length_le_size
  have hbudget := budget_ge stream.size
  simp only [cost, hload]
  omega

/-- A run that ends comes to the same with more fuel. -/
theorem run_add {fuel : Nat} {p : Parser} (hends : run rules fuel p ≠ .error .endless)
    (more : Nat) : run rules (fuel + more) p = run rules fuel p := by
  fun_induction run rules fuel p with
  | case1 fuel p hitems =>
    unfold run
    rw [hitems]
  | case2 => exact absurd rfl hends
  | case3 p item items fuel hitems next hstep ih =>
    rw [Nat.succ_add, ← ih hends]
    conv_lhs => unfold run
    simp only [hitems, hstep]
  | case4 p item items fuel hitems e hstep =>
    rw [Nat.succ_add]
    unfold run
    simp only [hitems, hstep]

/-- A run that fails has come to a parser whose next step fails. -/
theorem exists_step_of_run_error {fuel : Nat} {p : Parser} {e : ParseError}
    (hrun : run rules fuel p = .error e) (hends : e ≠ .endless) :
    ∃ taken q item items, Reaches p taken q ∧ q.items = item :: items ∧
      step rules { q with items } item = .error e := by
  fun_induction run rules fuel p with
  | case1 => cases hrun
  | case2 =>
    injection hrun with he
    exact absurd he.symm hends
  | case3 p item items fuel hitems next hstep ih =>
    obtain ⟨taken, q, first, others, hreaches, hrest⟩ := ih hrun
    exact ⟨_, q, first, others, .step hitems hstep hreaches, hrest⟩
  | case4 p item items fuel hitems cause hstep =>
    injection hrun with he
    exact ⟨[], p, item, items, .refl p, hitems, he ▸ hstep⟩

/-- The tokens that a run takes and a sentence of the items that it comes to are a sentence of the
    items that it starts with. -/
theorem Reaches.yields {p q : Parser} {taken : List Token} {word : List Kind}
    (hreaches : Reaches p taken q) (hword : Yields (erase q.items) word) :
    Yields (erase p.items) (taken.map Token.kind ++ word) := by
  induction hreaches with
  | refl p => exact hword
  | @step p q r item items taken hitems hstep _ ih =>
    have hrest := ih hword
    rw [hitems]
    cases item with
    | token kind =>
      obtain ⟨token, stream, -, rfl, rfl⟩ := step_token_eq_ok.mp hstep
      exact .terminal hrest
    | nonterminal n =>
      obtain ⟨token, stream, rule, -, hrule, rfl⟩ := step_nonterminal_eq_ok.mp hstep
      simp only [erase_append] at hrest
      obtain ⟨v, w, hsplit, hv, hw⟩ := hrest.split
      simp only [takenBy, List.nil_append, erase_nonterminal, hsplit]
      exact .nonterminal (mem_productions_of_rules hrule) hv hw
    | action a =>
      obtain ⟨nodes, -, rfl⟩ := step_action_eq_ok.mp hstep
      exact hrest

/-- A run takes the first tokens of a scanner, each of them once. -/
theorem Reaches.drain {p q : Parser} {taken : List Token} {s : Scanner}
    (hreaches : Reaches p taken q) (hstream : p.stream = .scanner s) :
    ∃ after, q.stream = .scanner after ∧ s.drain = (taken ++ after.drain.1, after.drain.2) := by
  induction hreaches generalizing s with
  | refl p => exact ⟨s, hstream, rfl⟩
  | @step p q r item items taken hitems hstep _ ih =>
    cases item with
    | token kind =>
      obtain ⟨token, stream, hnext, -, rfl⟩ := step_token_eq_ok.mp hstep
      simp only [hstream, TokenStream.next, Prod.mk.injEq] at hnext
      obtain ⟨hfound, rfl⟩ := hnext
      obtain ⟨after, hafter, hdrain⟩ := ih rfl
      have hnext : s.next = (.ok token, s.next.2) := by rw [← hfound]
      refine ⟨after, hafter, ?_⟩
      rw [Scanner.drain_of_next_ok hnext, hdrain]
      rfl
    | nonterminal n =>
      obtain ⟨token, stream, rule, hpeek, -, rfl⟩ := step_nonterminal_eq_ok.mp hstep
      simp only [hstream, TokenStream.peek, Prod.mk.injEq] at hpeek
      obtain ⟨hfound, rfl⟩ := hpeek
      obtain ⟨after, hafter, hdrain⟩ := ih rfl
      have hpeek : s.peek = (.ok token, s.peek.2) := by rw [← hfound]
      refine ⟨after, hafter, ?_⟩
      rw [← Scanner.drain_of_peek_ok hpeek, hdrain]
      rfl
    | action a =>
      obtain ⟨nodes, -, rfl⟩ := step_action_eq_ok.mp hstep
      exact ih hstream

end Klein.Parser
