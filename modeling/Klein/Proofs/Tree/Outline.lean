import Klein.Proofs.Analysis.Soundness
import Klein.Proofs.Parser.Nodes
import Klein.Proofs.Text.Forest
import Klein.Proofs.Tree.Equality

namespace Klein

open Text

/-- The words of the entry of an expression. -/
def Expr.words (e : Expr) : List String :=
  match e with
  | .integer _ text | .boolean _ text | .identifier _ text => [e.form.name, text]
  | .unary .. | .binary .. | .conditional .. => [e.form.name]
  | .call .. => ["function", "call"]

/-- The entry of an operand with its name, where those below the operand are given. -/
def Expr.sideEntry (name : String) (e : Expr) (below beside : Forest) : Forest :=
  if e.isLeaf then .cons (name :: e.words) .nil beside
  else .cons [name] (.cons e.words below .nil) beside

mutual

/-- The entries below that of an expression. -/
def Expr.entries : Expr → Forest
  | .integer .. | .boolean .. | .identifier .. => .nil
  | .unary _ _ value => value.sideEntry "value" value.entries .nil
  | .binary _ _ left right =>
    left.sideEntry "left_side" left.entries (right.sideEntry "right_side" right.entries .nil)
  | .conditional _ condition consequent alternative =>
    .cons ["condition"] (.cons condition.words condition.entries .nil)
      (.cons ["consequent"] (.cons consequent.words consequent.entries .nil)
        (.cons ["alternative"] (.cons alternative.words alternative.entries .nil) .nil))
  | .call _ callee _ arguments =>
    .cons ["name", callee] .nil (arguments.entries.headed ["arguments"])

def Arguments.entries : Arguments → Forest
  | .nil => .nil
  | .cons _ value rest => .cons value.words value.entries rest.entries

end

def Expr.entry (e : Expr) : List String × Forest :=
  (e.words, e.entries)

def Parameter.entry (p : Parameter) : List String × Forest :=
  ([p.type.base.toString, p.name], .nil)

def Body.entries (b : Body) : Forest :=
  .ofList ((b.prints.map Call.toExpr ++ [b.result]).map Expr.entry)

def Definition.entry (d : Definition) : List String × Forest :=
  ([Form.definition.name],
    .cons ["name", d.name] .nil
      (.cons ["parameters"] (.ofList (d.parameters.items.map Parameter.entry))
        (.cons ["returns", d.returnType.base.toString] .nil
          (.cons ["body"] d.body.entries .nil))))

def Program.entries (p : Program) : Forest :=
  .cons [Form.program.name] (.ofList (p.definitions.map Definition.entry)) .nil

/-- The words of a leaf make its title. -/
theorem Expr.join_words_of_leaf {e : Expr} (hleaf : e.isLeaf = true) :
    join " " e.words = e.title := by
  cases e <;> simp_all [words, title, join_cons_cons, isLeaf]

theorem Expr.entries_of_leaf {e : Expr} (hleaf : e.isLeaf = true) : e.entries = .nil := by
  cases e <;> simp_all [entries, isLeaf]

theorem Expr.lines_sideEntry {i : Indent} {e : Expr}
    (houtline : e.outline (i.deeper 2) =
      (i.deeper 2).line (join " " e.words) :: e.entries.lines ((i.deeper 2).deeper 1))
    (name : String) (beside : Forest) :
    (e.sideEntry name e.entries beside).lines (i.deeper 1) =
      (if e.isLeaf then [(i.deeper 1).line (name ++ " " ++ e.title)]
        else (i.deeper 1).line name :: e.outline (i.deeper 2)) ++ beside.lines (i.deeper 1) := by
  unfold sideEntry
  by_cases hleaf : e.isLeaf = true
  · obtain ⟨first, second, hwords⟩ : ∃ first second, e.words = [first, second] := by
      cases e <;> simp_all [words, isLeaf]
    rw [if_pos hleaf, if_pos hleaf, ← join_words_of_leaf hleaf, hwords]
    simp [Forest.lines, join_cons_cons]
  · rw [if_neg hleaf, if_neg hleaf, houtline]
    simp [Forest.lines]

mutual

/-- The outline of an expression is the line of its entry with those of the entries below it. -/
theorem Expr.outline_eq_lines (i : Indent) :
    (e : Expr) → e.outline i = i.line (join " " e.words) :: e.entries.lines (i.deeper 1)
  | .integer .. | .boolean .. | .identifier .. => by
    simp [Expr.outline, Expr.words, Expr.title, Expr.entries, Forest.lines, join_cons_cons]
  | .unary _ op value => by
    have hvalue := Expr.lines_sideEntry (Expr.outline_eq_lines (i.deeper 2) value) "value" .nil
    rw [Expr.entries, hvalue, Forest.lines, List.append_nil, Expr.outline, Expr.words, join_one]
    rfl
  | .binary _ op left right => by
    have hleft := Expr.lines_sideEntry (Expr.outline_eq_lines (i.deeper 2) left) "left_side"
      (right.sideEntry "right_side" right.entries .nil)
    have hright := Expr.lines_sideEntry (Expr.outline_eq_lines (i.deeper 2) right) "right_side" .nil
    rw [Expr.entries, hleft, hright, Forest.lines, List.append_nil, Expr.outline, Expr.words,
      join_one]
    rfl
  | .conditional _ condition consequent alternative => by
    rw [Expr.outline, Expr.outline_eq_lines (i.deeper 2) condition,
      Expr.outline_eq_lines (i.deeper 2) consequent, Expr.outline_eq_lines (i.deeper 2) alternative]
    simp [Expr.entries, Expr.words, Expr.title, Forest.lines]
  | .call _ callee _ arguments => by
    have harguments := Arguments.outline_eq_lines (i.deeper 2) arguments
    cases arguments with
    | nil =>
      simp [Expr.outline, Expr.entries, Arguments.entries, Forest.headed, Forest.lines, Expr.words,
        join_cons_cons]
    | cons tag value rest =>
      simp [Expr.outline, Expr.entries, Arguments.entries, Forest.headed, Forest.lines, Expr.words,
        join_cons_cons, harguments]

theorem Arguments.outline_eq_lines (i : Indent) :
    (arguments : Arguments) → arguments.outline i = arguments.entries.lines i
  | .nil => by simp [Arguments.outline, Arguments.entries, Forest.lines]
  | .cons _ value rest => by
    rw [Arguments.outline, Arguments.entries, Forest.lines, Expr.outline_eq_lines i value,
      Arguments.outline_eq_lines i rest]

end

theorem Body.outline_eq_lines (i : Indent) (b : Body) : b.outline i = b.entries.lines i := by
  rw [outline, entries, Forest.lines_ofList, List.map_append, List.flatMap_append, List.map_map,
    List.flatMap_map, List.map_singleton, List.flatMap_singleton, Expr.outline_eq_lines i b.result]
  simp only [Expr.outline_eq_lines, Function.comp_apply, Expr.entry]

theorem Definition.outline_eq_lines (i : Indent) (d : Definition) :
    d.outline i = i.line (join " " d.entry.1) :: d.entry.2.lines (i.deeper 1) := by
  have hparameters : (Forest.ofList (d.parameters.items.map Parameter.entry)).lines (i.deeper 2) =
      d.parameters.items.flatMap (Parameter.outline (i.deeper 2)) := by
    rw [Forest.lines_ofList, List.flatMap_map]
    congr 1
  rw [outline, Body.outline_eq_lines, ← hparameters]
  simp [entry, Forest.lines, join_cons_cons, Node.title, Node.form]

theorem Program.outline?_eq_lines (i : Indent) (p : Program) :
    (Node.program p).outline? i = .ok (some (p.entries.lines i)) := by
  have hdefinitions : (Forest.ofList (p.definitions.map Definition.entry)).lines (i.deeper 1) =
      p.definitions.flatMap (Definition.outline (i.deeper 1)) := by
    rw [Forest.lines_ofList, List.flatMap_map]
    congr 1
    funext d
    exact (d.outline_eq_lines _).symm
  rw [Node.outline?, ← hdefinitions]
  simp [entries, Forest.lines, Node.title, Node.form]

theorem IsName.isPlain {name : String} (h : IsName name) : Forest.IsPlain name where
  ne_empty := by
    rintro rfl
    obtain ⟨c, hc, -⟩ := h.initial
    cases hc
  chars := List.all_eq_true.mpr h.chars

theorem IsNumeral.isPlain {text : String} (h : IsNumeral text) : Forest.IsPlain text where
  ne_empty := by
    rintro rfl
    rcases h.canonical with hzero | ⟨c, hc, -⟩
    · exact absurd hzero (by decide)
    · cases hc
  chars := List.all_eq_true.mpr fun c hc => by simp [isWordChar, h.digits c hc]

theorem Form.isPlain_name (form : Form) : Forest.IsPlain form.name := by
  cases form with
  | unaryOp op => cases op <;> decide
  | binaryOp op => cases op <;> decide
  | _ => decide

theorem BaseType.isPlain_toString (base : BaseType) : Forest.IsPlain base.toString := by
  cases base <;> decide

theorem Expr.words_ne_nil (e : Expr) : e.words ≠ [] := by
  cases e <;> simp [words]

theorem Expr.plainWords {e : Expr} (hlegal : e.Legal) : Forest.PlainWords e.words := by
  have hform := e.form.isPlain_name
  cases e with
  | integer tag text => exact .pair hform (IsNumeral.isPlain hlegal)
  | boolean tag text =>
    refine .pair hform ?_
    rcases hlegal with rfl | rfl <;> decide
  | identifier tag name => exact .pair hform (IsName.isPlain hlegal)
  | unary | binary | conditional => exact .cons hform (List.forall_mem_nil _)
  | call => exact .pair (by decide) (by decide)

theorem Expr.plain_sideEntry {name : String} {e : Expr} {below beside : Forest}
    (hname : Forest.IsPlain name) (hlegal : e.Legal) (hbelow : below.Plain)
    (hbeside : beside.Plain) : (e.sideEntry name below beside).Plain := by
  have hwords := plainWords hlegal
  unfold sideEntry
  split
  · exact ⟨.cons hname hwords.plain, trivial, hbeside⟩
  · exact ⟨.cons hname (List.forall_mem_nil _), ⟨hwords, hbelow, trivial⟩, hbeside⟩

theorem Expr.plain_entries_call (tag listTag : Tag) {callee : String} {arguments : Arguments}
    (hcallee : Forest.IsPlain callee) (harguments : arguments.entries.Plain) :
    (Expr.call tag callee listTag arguments).entries.Plain :=
  ⟨.pair (by decide) hcallee, trivial, Forest.plain_headed (by decide) harguments⟩

mutual

theorem Expr.plain_entries : {e : Expr} → e.Legal → e.entries.Plain
  | .integer .., _ | .boolean .., _ | .identifier .., _ => trivial
  | .unary .., hlegal =>
    Expr.plain_sideEntry (by decide) hlegal (Expr.plain_entries hlegal) trivial
  | .binary .., hlegal =>
    Expr.plain_sideEntry (by decide) hlegal.1 (Expr.plain_entries hlegal.1)
      (Expr.plain_sideEntry (by decide) hlegal.2 (Expr.plain_entries hlegal.2) trivial)
  | .conditional .., hlegal => by
    obtain ⟨hcondition, hconsequent, halternative⟩ := hlegal
    exact ⟨by decide, ⟨Expr.plainWords hcondition, Expr.plain_entries hcondition, trivial⟩,
      by decide, ⟨Expr.plainWords hconsequent, Expr.plain_entries hconsequent, trivial⟩,
      by decide, ⟨Expr.plainWords halternative, Expr.plain_entries halternative, trivial⟩, trivial⟩
  | .call tag _ listTag _, hlegal =>
    Expr.plain_entries_call tag listTag (IsName.isPlain hlegal.1)
      (Arguments.plain_entries hlegal.2)

theorem Arguments.plain_entries : {arguments : Arguments} → arguments.Legal →
    arguments.entries.Plain
  | .nil, _ => trivial
  | .cons .., hlegal =>
    ⟨Expr.plainWords hlegal.1, Expr.plain_entries hlegal.1, Arguments.plain_entries hlegal.2⟩

end

theorem Body.plain_entries {b : Body} (hlegal : b.Legal) : b.entries.Plain := by
  rw [entries, Forest.plain_ofList, List.forall_mem_map, List.forall_mem_append]
  refine ⟨?_, List.forall_mem_singleton.mpr
    ⟨Expr.plainWords hlegal.result, Expr.plain_entries hlegal.result⟩⟩
  rw [List.forall_mem_map]
  intro c hc
  obtain ⟨hcallee, tag, value, hitems, hvalue⟩ := hlegal.prints c hc
  have harguments : c.arguments.items.Legal := by
    rw [hitems]
    exact ⟨hvalue, trivial⟩
  have hprint : Forest.IsPlain c.callee := by
    rw [hcallee]
    decide
  exact ⟨.pair (by decide) (by decide),
    Expr.plain_entries_call c.tag c.arguments.tag hprint (Arguments.plain_entries harguments)⟩

theorem Definition.plain_entry {d : Definition} (hlegal : d.Legal) :
    Forest.PlainWords d.entry.1 ∧ d.entry.2.Plain := by
  have hparameters : (Forest.ofList (d.parameters.items.map Parameter.entry)).Plain := by
    rw [Forest.plain_ofList, List.forall_mem_map]
    exact fun p hp => ⟨.pair p.type.base.isPlain_toString (hlegal.parameters p hp).isPlain, trivial⟩
  exact ⟨.cons (Form.isPlain_name _) (List.forall_mem_nil _),
    .pair (by decide) hlegal.name.isPlain, trivial, by decide, hparameters,
    .pair (by decide) d.returnType.base.isPlain_toString, trivial, by decide,
    Body.plain_entries hlegal.body, trivial⟩

theorem Program.plain_entries {p : Program} (hlegal : p.Legal) : p.entries.Plain := by
  refine ⟨by decide, ?_, trivial⟩
  rw [Forest.plain_ofList, List.forall_mem_map]
  exact fun d hd => Definition.plain_entry (hlegal d hd)

theorem Form.ofName?_name (form : Form) : Form.ofName? form.name = some form := by
  cases form with
  | unaryOp op => cases op <;> rfl
  | binaryOp op => cases op <;> rfl
  | _ => rfl

@[simp]
theorem Form.name_inj {form other : Form} : form.name = other.name ↔ form = other := by
  refine ⟨fun h => ?_, congrArg _⟩
  have hfound := form.ofName?_name
  rw [h, other.ofName?_name] at hfound
  exact (Option.some.inj hfound).symm

@[simp]
theorem Form.name_ne_function (form : Form) : form.name ≠ "function" := by
  intro h
  have hfound := form.ofName?_name
  rw [h] at hfound
  cases hfound

theorem BaseType.toString_inj {base other : BaseType} (h : base.toString = other.toString) :
    base = other := by
  revert h
  cases base <;> cases other <;> decide

/-- The entry of an operand tells what the operand is by itself. -/
theorem Expr.sideEntry_inj {name : String} {e other : Expr} {beside beside' : Forest}
    (h : e.sideEntry name e.entries beside = other.sideEntry name other.entries beside') :
    e.words = other.words ∧ e.entries = other.entries ∧ beside = beside' := by
  unfold sideEntry at h
  split at h <;> split at h <;> injection h with hwords hbelow hbeside
  · rename_i hleaf hleaf'
    injection hwords with _ hwords
    exact ⟨hwords, by rw [entries_of_leaf hleaf, entries_of_leaf hleaf'], hbeside⟩
  · exact absurd (List.cons.inj hwords).2 e.words_ne_nil
  · exact absurd (List.cons.inj hwords).2.symm other.words_ne_nil
  · injection hbelow with hwords hbelow
    exact ⟨hwords, hbelow, hbeside⟩

mutual

/-- An expression is determined by its entry, up to its annotations. -/
theorem Expr.bare_of_entry : {e other : Expr} → e.words = other.words →
    e.entries = other.entries → e.bare = other.bare
  | .integer .., other, hwords, _ => by
    cases other <;> simp_all [Expr.words, Expr.form, Expr.bare]
  | .boolean .., other, hwords, _ => by
    cases other <;> simp_all [Expr.words, Expr.form, Expr.bare]
  | .identifier .., other, hwords, _ => by
    cases other <;> simp_all [Expr.words, Expr.form, Expr.bare]
  | .unary .., other, hwords, hentries => by
    cases other with
    | unary tag op value =>
      simp only [Expr.words, Expr.form, List.cons.injEq, Form.name_inj, Form.unaryOp.injEq,
        and_true] at hwords
      obtain ⟨hvalue, hbelow, -⟩ := Expr.sideEntry_inj hentries
      rw [Expr.bare, Expr.bare, hwords, Expr.bare_of_entry hvalue hbelow]
    | _ => simp [Expr.words, Expr.form] at hwords
  | .binary .., other, hwords, hentries => by
    cases other with
    | binary tag op left right =>
      simp only [Expr.words, Expr.form, List.cons.injEq, Form.name_inj, Form.binaryOp.injEq,
        and_true] at hwords
      obtain ⟨hleft, hbelow, hbeside⟩ := Expr.sideEntry_inj hentries
      obtain ⟨hright, hbelow', -⟩ := Expr.sideEntry_inj hbeside
      rw [Expr.bare, Expr.bare, hwords, Expr.bare_of_entry hleft hbelow,
        Expr.bare_of_entry hright hbelow']
    | _ => simp [Expr.words, Expr.form] at hwords
  | .conditional .., other, hwords, hentries => by
    cases other with
    | conditional tag condition consequent alternative =>
      simp only [Expr.entries, Forest.cons.injEq, true_and, and_true] at hentries
      obtain ⟨hcondition, hconsequent, halternative⟩ := hentries
      rw [Expr.bare, Expr.bare, Expr.bare_of_entry hcondition.1 hcondition.2,
        Expr.bare_of_entry hconsequent.1 hconsequent.2,
        Expr.bare_of_entry halternative.1 halternative.2]
    | _ => simp [Expr.words, Expr.form] at hwords
  | .call .., other, hwords, hentries => by
    cases other with
    | call tag callee listTag arguments =>
      simp only [Expr.entries, Forest.cons.injEq, List.cons.injEq, true_and, and_true] at hentries
      obtain ⟨hcallee, harguments⟩ := hentries
      rw [Expr.bare, Expr.bare, hcallee, Arguments.bare_of_entries (Forest.headed_inj harguments)]
    | _ => simp [Expr.words, (Form.name_ne_function _).symm] at hwords

theorem Arguments.bare_of_entries : {arguments others : Arguments} →
    arguments.entries = others.entries → arguments.bare = others.bare
  | .nil, others, hentries => by
    cases others with
    | nil => rfl
    | cons => cases hentries
  | .cons .., others, hentries => by
    cases others with
    | nil => cases hentries
    | cons tag value rest =>
      injection hentries with hwords hbelow hrest
      rw [Arguments.bare, Arguments.bare, Expr.bare_of_entry hwords hbelow,
        Arguments.bare_of_entries hrest]

end

theorem Call.toExpr_inj {c other : Call} (h : c.toExpr = other.toExpr) : c = other :=
  Option.some.inj (congrArg Expr.toCall? h)

theorem Body.bare_of_entries {b other : Body} (h : b.entries = other.entries) :
    b.bare = other.bare := by
  have hbare := map_eq_of_map_eq (g := Expr.bare)
    (fun e _ e' _ hentry => Expr.bare_of_entry (Prod.mk.inj hentry).1 (Prod.mk.inj hentry).2)
    (Forest.ofList_inj h)
  rw [List.map_append, List.map_append] at hbare
  obtain ⟨hprints, hresult⟩ := List.append_inj' hbare rfl
  have hcalls : b.prints.map Call.bare = other.prints.map Call.bare := by
    rw [List.map_map, List.map_map] at hprints
    refine (List.map_inj_right fun _ _ => Call.toExpr_inj).mp ?_
    rw [List.map_map, List.map_map]
    exact hprints
  rw [bare, bare, hcalls, (List.cons.inj hresult).1]

theorem Parameter.bare_of_entry {p other : Parameter} (h : p.entry = other.entry) :
    p.bare = other.bare := by
  simp only [entry, Prod.mk.injEq, List.cons.injEq, and_true] at h
  rw [bare, bare, h.2, TypeNode.bare, TypeNode.bare, BaseType.toString_inj h.1]

theorem Definition.bare_of_entry {d other : Definition} (h : d.entry = other.entry) :
    d.bare = other.bare := by
  simp only [entry, Prod.mk.injEq, Forest.cons.injEq, List.cons.injEq, true_and, and_true] at h
  obtain ⟨hname, hparameters, hreturns, hbody⟩ := h
  have hitems := map_eq_of_map_eq (g := Parameter.bare)
    (fun _ _ _ _ => Parameter.bare_of_entry) (Forest.ofList_inj hparameters)
  rw [bare, bare, hname, ParameterList.bare, ParameterList.bare, hitems, TypeNode.bare,
    TypeNode.bare, BaseType.toString_inj hreturns, Body.bare_of_entries hbody]

theorem Program.bare_of_entries {p other : Program} (h : p.entries = other.entries) :
    p.bare = other.bare := by
  injection h with _ hdefinitions
  rw [bare, bare, map_eq_of_map_eq (g := Definition.bare)
    (fun _ _ _ _ => Definition.bare_of_entry) (Forest.ofList_inj hdefinitions)]

theorem Program.text_eq (p : Program) :
    (Node.program p).text {} = .ok (some (join "\n" (p.entries.lines {}))) := by
  rw [Node.text, outline?_eq_lines]
  rfl

/-- Programs that were parsed are the same if their outlines are the same texts. -/
theorem Program.eq_of_text_eq {source other : String} {a b : Program}
    (ha : parse source = .ok a) (hb : parse other = .ok b)
    (htext : (Node.program a).text {} = (Node.program b).text {}) :
    a = b ∧ (Node.program a).alike (.program b) = true := by
  have hsame : a = b := by
    rw [a.text_eq, b.text_eq, Except.ok.injEq, Option.some.injEq] at htext
    have hentries := Forest.text_inj (plain_entries (Parser.legal_of_parse ha))
      (plain_entries (Parser.legal_of_parse hb)) (by simp [entries]) (by simp [entries]) htext
    rw [← Parser.bare_of_parse ha, ← Parser.bare_of_parse hb]
    exact bare_of_entries hentries
  exact ⟨hsame, hsame ▸ Node.alike_self _⟩

/-- Layout and parentheses are not in an outline, while names may spell the words that are. -/
theorem Program.eq_of_text_eq_layout : ∃ p,
    parse "function value(body:integer):integer -value(body)" = .ok p ∧
    parse "function value(body: integer): integer (-(value((body))))" = .ok p := by
  let text := "Program\n  Definition\n    name value\n    parameters\n      Integer body\n" ++
    "    returns Integer\n    body\n      UnaryMinusExpression\n        value\n" ++
    "          function call\n            name value\n            arguments\n" ++
    "              Identifier body"
  have hfirst : ∃ a, parse "function value(body:integer):integer -value(body)" = .ok a ∧
      ((Node.program a).text {}).toOption = some (some text) := by
    apply Analysis.exists_ok_of_any
    decide +kernel
  have hsecond : ∃ b, parse "function value(body: integer): integer (-(value((body))))" = .ok b ∧
      ((Node.program b).text {}).toOption = some (some text) := by
    apply Analysis.exists_ok_of_any
    decide +kernel
  obtain ⟨a, ha, htext⟩ := hfirst
  obtain ⟨b, hb, htext'⟩ := hsecond
  have hsame := eq_of_text_eq ha hb
    ((Analysis.ok_of_toOption htext).trans (Analysis.ok_of_toOption htext').symm)
  exact ⟨a, ha, hsame.1 ▸ hb⟩

end Klein
