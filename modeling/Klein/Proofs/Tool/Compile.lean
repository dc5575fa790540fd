import Klein.Proofs.Code.Listing
import Klein.Proofs.Text.Wrapping
import Klein.Tool

namespace Klein

open Analysis Machine Text

variable {p : Program} {nesting : Nesting} {text : String}

theorem Nesting.allows_of_le {depth limit : Nat} (hallows : nesting.allows limit = true)
    (hle : depth ≤ limit) : nesting.allows depth = true := by
  cases nesting with
  | none => rfl
  | some most =>
    simp only [Nesting.allows, decide_eq_true_eq] at hallows ⊢
    omega

theorem foldl_max_le {α : Type} {items : List α} {f : α → Nat} {start limit : Nat}
    (hstart : start ≤ limit) (hitems : ∀ a ∈ items, f a ≤ limit) :
    items.foldl (fun h a => max h (f a)) start ≤ limit := by
  induction items generalizing start with
  | nil => exact hstart
  | cons a items ih =>
    rw [List.foldl_cons]
    exact ih (Nat.max_le.mpr ⟨hstart, hitems a (by simp)⟩) fun b hb => hitems b (by simp [hb])

theorem height_of_literal {e : Expr} (hliteral : e.literal? ≠ none) : e.height = 1 := by
  cases e with
  | integer tag text => rfl
  | _ => exact absurd rfl hliteral

theorem height_of_output {c : Call} (hliteral : c.literal? ≠ none) : c.toExpr.height = 4 := by
  unfold Call.literal? at hliteral
  split at hliteral
  · rename_i tag value harguments
    rw [Call.toExpr, Expr.height, harguments, Arguments.height, height_of_literal hliteral]
    rfl
  · exact absurd rfl hliteral

/-- A program of literals is not deep. -/
theorem height_of_literals (hliterals : ∀ d ∈ p.definitions, none ∉ d.body.literals) :
    p.height ≤ 8 := by
  have hbody : ∀ d ∈ p.definitions, d.body.height + 1 ≤ 6 := by
    intro d hd
    have hparts := hliterals d hd
    simp only [Body.literals, List.mem_append, List.mem_map, List.mem_singleton, not_or,
      not_exists, not_and] at hparts
    have hresult := height_of_literal (Ne.symm hparts.2)
    have hprints : d.body.prints.foldl (fun h c => max h c.toExpr.height) d.body.result.height ≤ 4 :=
      foldl_max_le (by omega) fun c hc => (height_of_output (hparts.1 c hc)).le
    rw [Body.height]
    omega
  have hall := foldl_max_le (Nat.zero_le 6) hbody
  rw [Program.height]
  omega

theorem deepPiece?_none (offset : Nat) (text : List Char) : deepPiece? none offset text = none := by
  fun_induction deepPiece? none offset text with
  | case1 => rfl
  | case2 _ _ _ _ hdeep => cases hdeep
  | case3 => rfl
  | case4 _ _ _ _ _ _ ih => exact ih
  | case5 _ _ _ _ _ _ _ ih => exact ih

/-- Without a limit every text is read to its end. -/
theorem parseWithin_none (text : String) : parseWithin none text = parse text := by
  rw [parseWithin, tokensWithin, deepPiece?_none]

theorem legal_of_parseWithin
    (hparse : parseWithin nesting text = .ok p) : p.Legal := by
  rw [parseWithin, tokensWithin] at hparse
  dsimp only at hparse
  cases hdeep : deepPiece? nesting 0 text.toList with
  | none =>
    rw [hdeep] at hparse
    exact Parser.legal_of_parse hparse
  | some offset =>
    rw [hdeep] at hparse
    refine Parser.legal_of_parseStream (fun token htoken => ?_) hparse
    exact (Scanner.ofText text).drain_genuine token (List.mem_of_mem_filter htoken)

/-- A character by which a listing is told from a report: the star of a remark, or a digit. -/
def isListingMark (c : Char) : Bool :=
  c == '*' || c.isDigit

theorem exists_digit (number : Int) : ∃ c ∈ number.repr.toList, c.isDigit = true := by
  have hdigits : ∀ m : Nat, ∃ c ∈ m.repr.toList, c.isDigit = true := by
    intro m
    obtain ⟨c, hc⟩ := List.exists_mem_of_ne_nil _ (Nat.toDigits_ne_nil (n := m) (b := 10))
    exact ⟨c, Nat.toList_repr ▸ hc, Nat.isDigit_of_mem_toDigits (by decide) (by decide) hc⟩
  cases number with
  | ofNat m => exact hdigits m
  | negSucc m =>
    obtain ⟨c, hc, hdigit⟩ := hdigits m.succ
    refine ⟨c, ?_, hdigit⟩
    rw [Int.repr, String.toList_append]
    exact List.mem_append_right _ hc

/-- Every line of a listing has a star or a digit. -/
theorem exists_listingMark {columns : Columns} {line : CodeLine} {printed : String}
    (h : LineText columns line printed) : ∃ c ∈ printed.toList, isListingMark c = true := by
  cases h with
  | star | remark => exact ⟨'*', by simp, rfl⟩
  | @plain number | @noted number =>
    obtain ⟨c, hc, hdigit⟩ := exists_digit number
    exact ⟨c, by simp [hc], by simp [isListingMark, hdigit]⟩

theorem Form.mem_all (form : Form) : form ∈ Form.all := by
  cases form with
  | unaryOp op => cases op <;> decide
  | binaryOp op => cases op <;> decide
  | _ => decide

/-- The report of a form that has no code has neither stars nor digits. -/
theorem not_listingMark_report (form : Form) :
    ∀ c ∈ (CodeError.unsupported form).message.toList, ¬isListingMark c = true := by
  have hnames : ∀ form ∈ Form.all, form.name.toList.any isListingMark = false := by
    decide +kernel
  rw [CodeError.message, codeReport]
  refine forall_wrapMessage (by decide) (by decide) ?_
  rw [← List.any_eq_false]
  simp only [ToString.toString, String.toList_append, List.any_append, hnames form form.mem_all]
  decide

/-- No line of a listing is in the report of an expression that is not a literal. -/
theorem not_infix_refusal {parts : List Expr} {e : CodeError} (he : refusal? parts = some e)
    {columns : Columns} {line : CodeLine} {printed : String} (h : LineText columns line printed) :
    ¬printed.toList <:+: (e.message ++ "\n").toList := by
  intro hinfix
  obtain ⟨value, -, rfl⟩ := Option.map_eq_some_iff.mp he
  obtain ⟨c, hc, hmark⟩ := exists_listingMark h
  have hmem := hinfix.subset hc
  rw [String.toList_append, List.mem_append] at hmem
  rcases hmem with hmem | hmem
  · exact not_listingMark_report _ c hmem hmark
  · obtain rfl := List.mem_singleton.mp hmem
    cases hmark

/-- A program that has code: the text is parsed as it within the limit, there are no errors in it,
    and all that its definitions output and come to are literals. -/
structure Supported (nesting : Nesting) (text : String) (p : Program) : Prop where
  parsed : parseWithin nesting text = .ok p
  clean : ∀ issue ∈ (analyze p).state.issues, issue.isError = false
  literals : ∀ d ∈ p.definitions, none ∉ d.body.literals

/-- What is printed for a text that has no code: the report of the first stage that fails. The text
    is not parsed, its tree is too deep to be walked, there are errors in the program, or one of its
    expressions is not a literal. -/
inductive Refused (nesting : Nesting) (text : String) : String → Prop
  | unparsed {e : ParseError} : parseWithin nesting text = .error e →
      Refused nesting text (e.explanation text)
  | deep {p : Program} : parseWithin nesting text = .ok p → nesting.allows p.height = false →
      Refused nesting text giveUp
  | rejected {p : Program} {count : Nat} : parseWithin nesting text = .ok p →
      errorCount (analyze p).state.issues = count → count ≠ 0 →
      Refused nesting text
        ((analyze p).state.issueText ++ (Analysis.Error.issues count).message ++ "\n")
  | unsupported {p : Program} {e : CodeError} : parseWithin nesting text = .ok p →
      errorCount (analyze p).state.issues = 0 → refusal? p.parts = some e →
      Refused nesting text (e.message ++ "\n")

/-- A text that is no part of a listing: no command has been given a number yet, or no line of a
    listing is in the text. -/
def Unlisted (text : String) (after : Layout) : Prop :=
  after = {} ∨ ∀ columns line printed, LineText columns line printed →
    ¬printed.toList <:+: text.toList

theorem errorCount_eq_zero_iff {issues : List Issue} :
    errorCount issues = 0 ↔ ∀ issue ∈ issues, issue.isError = false := by
  simp [errorCount, List.countP_eq_zero]

theorem error_analyze_iff (hlegal : p.Legal) :
    (analyze p).error = none ↔ errorCount (analyze p).state.issues = 0 := by
  obtain ⟨-, -, -, -, -, -, herror⟩ := analyze_of_legal hlegal
  rw [herror]
  split <;> simp_all

theorem Refused.not_supported {report : String} (hnesting : nesting.allows 8 = true)
    (hrefused : Refused nesting text report) : ¬Supported nesting text p := by
  intro hsupported
  have hclean := errorCount_eq_zero_iff.mpr hsupported.clean
  cases hrefused with
  | unparsed hparse => cases hparse.symm.trans hsupported.parsed
  | deep hparse hdeep =>
    cases hparse.symm.trans hsupported.parsed
    rw [Nesting.allows_of_le hnesting (height_of_literals hsupported.literals)] at hdeep
    cases hdeep
  | rejected hparse hcount hne =>
    cases hparse.symm.trans hsupported.parsed
    exact hne (hcount.symm.trans hclean)
  | unsupported hparse hcount hrefusal =>
    cases hparse.symm.trans hsupported.parsed
    rw [(refusal?_eq_none_iff (legal_of_parseWithin hparse)).mpr hsupported.literals] at hrefusal
    cases hrefusal

/-- For a program without errors the compiler prints the listing, or the refusal of the first
    expression that is not a literal. -/
theorem compile_of_clean (hparse : parseWithin nesting text = .ok p)
    (hdeep : nesting.allows p.height = true) (hok : (analyze p).error = none) :
    (∃ lines layout, refusal? p.parts = none ∧
        (programCode (analyze p).state.table p).run.run {} = (.ok lines, layout) ∧
        Tool.compile.run nesting {} text =
          (⟨listingText layout (lines.map CodeLine.line), 0⟩, layout)) ∨
      ∃ e layout, refusal? p.parts = some e ∧
        Tool.compile.run nesting {} text = (⟨e.message ++ "\n", 1⟩, layout) := by
  have hlegal := legal_of_parseWithin hparse
  obtain ⟨⟨m, hmain⟩, hprint⟩ := exists_parameterCount hlegal hok
  obtain ⟨lines, layout, hrun, hnone⟩ | ⟨e, layout, hrun, he⟩ :=
    (refuses_programCode hmain hprint hlegal {}).cases
  · refine .inl ⟨lines, layout, hnone, hrun, ?_⟩
    simp [Tool.run, compileText, hparse, hdeep, hok, programCode_analyze, Code.print_of_run hrun]
  · refine .inr ⟨e, layout, he, ?_⟩
    obtain ⟨value, -, rfl⟩ := Option.map_eq_some_iff.mp he
    simp [Tool.run, compileText, hparse, hdeep, hok, programCode_analyze, Code.print, hrun]

/-- All that is listed for a program: the set-up, the function for output and the definitions, with
    the numbers from zero on, and the text of each line. -/
def ListedInFull (p : Program) (printed : String) (after : Layout) : Prop :=
  ∃ main lines, p.definitions.find? (·.name = "main") = some main ∧
    (programCode (analyze p).state.table p).run.run {} = (.ok lines, after) ∧
    MadeInOrder {} lines (setupBlock main.parameters.items.length ++ printBlock 1 ++
      p.definitions.flatMap (definitionBlock (printAddress main.parameters.items.length))) after ∧
    Prints {} lines printed

theorem listedInFull_of_run {lines : List CodeLine} {after : Layout} (hlegal : p.Legal)
    (hok : (analyze p).error = none) (hliterals : ∀ d ∈ p.definitions, none ∉ d.body.literals)
    (hrun : (programCode (analyze p).state.table p).run.run {} = (.ok lines, after)) :
    ListedInFull p (listingText after (lines.map CodeLine.line)) after := by
  obtain ⟨⟨m, hmain⟩, hprint⟩ := exists_parameterCount hlegal hok
  obtain ⟨main, hfound, rfl⟩ := main_of_parameterCount hlegal hmain
  have hlisted := (makes_programCode hmain hprint hlegal hliterals {}).of_run hrun
  exact ⟨main, lines, hfound, hrun, hlisted, hlisted.prints⟩

/-- A run of the compiler ends with the listing of a supported program, or with a refusal that is
    not part of a listing. -/
theorem compile_cases (nesting : Nesting) (text : String) :
    (∃ p printed after, Supported nesting text p ∧ ListedInFull p printed after ∧
        Tool.compile.run nesting {} text = (⟨printed, 0⟩, after)) ∨
      ∃ report after, Refused nesting text report ∧ Unlisted report after ∧
        Tool.compile.run nesting {} text = (⟨report, 1⟩, after) := by
  cases hparse : parseWithin nesting text with
  | error e =>
    refine .inr ⟨_, {}, .unparsed hparse, .inl rfl, ?_⟩
    simp only [Tool.run, compileText, hparse]
  | ok p =>
    cases hdeep : nesting.allows p.height with
    | false =>
      refine .inr ⟨_, {}, .deep hparse hdeep, .inl rfl, ?_⟩
      simp [Tool.run, compileText, hparse, hdeep]
    | true =>
      have hlegal := legal_of_parseWithin hparse
      by_cases hcount : errorCount (analyze p).state.issues = 0
      · have hok := (error_analyze_iff hlegal).mpr hcount
        obtain ⟨lines, after, hnone, hmade, hrun⟩ | ⟨e, after, he, hrun⟩ :=
          compile_of_clean hparse hdeep hok
        · have hliterals := (refusal?_eq_none_iff hlegal).mp hnone
          exact .inl ⟨p, _, after, ⟨hparse, errorCount_eq_zero_iff.mp hcount, hliterals⟩,
            listedInFull_of_run hlegal hok hliterals hmade, hrun⟩
        · exact .inr ⟨_, after, .unsupported hparse hcount he,
            .inr fun _ _ _ => not_infix_refusal he, hrun⟩
      · obtain ⟨-, -, -, -, -, -, herror⟩ := analyze_of_legal hlegal
        rw [if_neg hcount] at herror
        refine .inr ⟨_, {}, .rejected hparse rfl hcount, .inl rfl, ?_⟩
        simp [Tool.run, compileText, hparse, hdeep, herror]

/-- The compiler prints all of a program's code or none of it. With a new layout, and within a limit
    that is not too small for literals, it ends with zero for the texts of supported programs and
    for no others. Then it has printed exactly the lines of the code. For all other texts it ends
    with one, and has printed the report of the stage that fails and nothing of a listing. -/
theorem compile_all_or_nothing (nesting : Nesting) (hnesting : nesting.allows 8 = true)
    (text : String) :
    ((Tool.compile.run nesting {} text).1.exitCode = 0 ↔ ∃ p, Supported nesting text p) ∧
      (∀ p, Supported nesting text p → ∃ printed after, ListedInFull p printed after ∧
        Tool.compile.run nesting {} text = (⟨printed, 0⟩, after)) ∧
      ((Tool.compile.run nesting {} text).1.exitCode ≠ 0 →
        ∃ report after, Refused nesting text report ∧ Unlisted report after ∧
          Tool.compile.run nesting {} text = (⟨report, 1⟩, after)) := by
  rcases compile_cases nesting text with
    ⟨p, printed, after, hsupported, hlisted, hrun⟩ | ⟨report, after, hrefused, hunlisted, hrun⟩
  · rw [hrun]
    refine ⟨⟨fun _ => ⟨p, hsupported⟩, fun _ => rfl⟩, fun q hq => ?_, fun hne => absurd rfl hne⟩
    cases hq.parsed.symm.trans hsupported.parsed
    exact ⟨printed, after, hlisted, rfl⟩
  · rw [hrun]
    have hnot : ¬∃ p, Supported nesting text p := fun ⟨_, hp⟩ => hrefused.not_supported hnesting hp
    exact ⟨⟨fun hzero => (Nat.one_ne_zero hzero).elim, fun hp => (hnot hp).elim⟩,
      fun p hp => (hnot ⟨p, hp⟩).elim, fun _ => ⟨report, after, hrefused, hunlisted, rfl⟩⟩

/-- Without the last definition the code of this program is listed. With it nothing is listed,
    though commands have been numbered. -/
theorem compile_all_or_nothing_last :
    (∃ p printed after, parse "function main():integer print(1) 2" = .ok p ∧
        ListedInFull p printed after ∧
        Tool.compile.run none {} "function main():integer print(1) 2" = (⟨printed, 0⟩, after)) ∧
      ∃ report after,
        Tool.compile.run (some usualNesting) {}
            "function main():integer print(1) 2 function f(n:integer):integer n" =
          (⟨report, 1⟩, after) ∧
        after ≠ {} ∧ Unlisted report after := by
  constructor
  · obtain ⟨hiff, hlisted, -⟩ :=
      compile_all_or_nothing none rfl "function main():integer print(1) 2"
    obtain ⟨p, hsupported⟩ := hiff.mp (by decide +kernel)
    obtain ⟨printed, after, hfull, hrun⟩ := hlisted p hsupported
    exact ⟨p, printed, after, parseWithin_none _ ▸ hsupported.parsed, hfull, hrun⟩
  · obtain ⟨-, -, hrefused⟩ := compile_all_or_nothing (some usualNesting) (by decide)
      "function main():integer print(1) 2 function f(n:integer):integer n"
    have hfails : (Tool.compile.run (some usualNesting) {}
        "function main():integer print(1) 2 function f(n:integer):integer n").1.exitCode ≠ 0 := by
      decide +kernel
    have hnumbered : (Tool.compile.run (some usualNesting) {}
        "function main():integer print(1) 2 function f(n:integer):integer n").2.next ≠ 0 := by
      decide +kernel
    obtain ⟨report, after, -, hunlisted, hrun⟩ := hrefused hfails
    rw [hrun] at hnumbered
    refine ⟨report, after, hrun, ?_, hunlisted⟩
    rintro rfl
    exact hnumbered rfl

end Klein
