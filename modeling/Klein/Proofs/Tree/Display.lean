import Klein.Tree.Display

namespace Klein

open Text

theorem Expr.lines_displaySide {i : Indent} {name : String} {e : Expr} {below : List Written}
    {lines : List String} (depth : Nat) (hbelow : below.map Written.line = lines) :
    (e.displaySide i depth name below).map Written.line =
      if e.isLeaf then [(i.deeper 1).line (name ++ " " ++ e.title)]
      else (i.deeper 1).line name :: lines := by
  unfold displaySide
  split
  · rfl
  · rw [List.map_cons, hbelow]

mutual

/-- A walk down an expression writes the lines of its outline, whatever its depth is. -/
theorem Expr.lines_display (i : Indent) (depth : Nat) (e : Expr) :
    (e.display i depth).map Written.line = e.outline i := by
  cases e with
  | integer | boolean | identifier => rfl
  | unary _ _ value =>
    have hvalue := Expr.lines_display (i.deeper 2) (depth + 1) value
    rw [Expr.display, Expr.outline, List.map_cons, Expr.lines_displaySide depth hvalue]
    rfl
  | binary _ _ left right =>
    have hleft := Expr.lines_display (i.deeper 2) (depth + 1) left
    have hright := Expr.lines_display (i.deeper 2) (depth + 1) right
    rw [Expr.display, Expr.outline, List.map_cons, List.map_append,
      Expr.lines_displaySide depth hleft, Expr.lines_displaySide depth hright]
    rfl
  | conditional _ condition consequent alternative =>
    simp only [Expr.display, Expr.outline, List.map_cons, List.map_append,
      Expr.lines_display (i.deeper 2) (depth + 1) condition,
      Expr.lines_display (i.deeper 2) (depth + 1) consequent,
      Expr.lines_display (i.deeper 2) (depth + 1) alternative]
  | call _ callee listTag arguments =>
    rw [Expr.display, List.map_cons, List.map_cons,
      Arguments.lines_display (i.deeper 1) (depth + 1) listTag arguments]
    cases arguments with
    | nil => rfl
    | cons =>
      simp only [ArgumentList.outline?, Expr.outline, Option.getD_some, Indent.deeper_deeper]
      rfl

/-- An empty list of arguments has no outline, and nothing is written for it. -/
theorem Arguments.lines_display (i : Indent) (depth : Nat) (tag : Tag) (items : Arguments) :
    (items.display i depth).map Written.line = (ArgumentList.outline? i ⟨tag, items⟩).getD [] := by
  cases items with
  | nil => rfl
  | cons _ value rest =>
    rw [Arguments.display, List.map_cons, List.map_append,
      Expr.lines_display (i.deeper 1) (depth + 2) value,
      Arguments.lines_displayEach (i.deeper 1) (depth + 2) rest]
    rfl

theorem Arguments.lines_displayEach (i : Indent) (depth : Nat) (items : Arguments) :
    (items.displayEach i depth).map Written.line = items.outline i := by
  cases items with
  | nil => rfl
  | cons _ value rest =>
    rw [Arguments.displayEach, Arguments.outline, List.map_append,
      Expr.lines_display i depth value, Arguments.lines_displayEach i depth rest]

end

theorem ParameterList.lines_display (i : Indent) (depth : Nat) (l : ParameterList) :
    (l.display i depth).map Written.line = l.items.flatMap (Parameter.outline i) := by
  rw [display, List.map_flatMap]
  rfl

theorem Body.lines_display (i : Indent) (depth : Nat) (b : Body) :
    (b.display i depth).map Written.line = b.outline i := by
  simp only [display, outline, List.map_append, List.map_flatMap, Expr.lines_display]

theorem Definition.lines_display (i : Indent) (depth : Nat) (d : Definition) :
    (d.display i depth).map Written.line = d.outline i := by
  simp only [display, outline, List.map_append, List.map_cons,
    ParameterList.lines_display, Body.lines_display, List.cons_append, List.nil_append,
    List.append_assoc]
  rfl

theorem lines_displayDefinitions (i : Indent) (depth : Nat) (items : List Definition) :
    (displayDefinitions i depth items).map Written.line =
      items.flatMap (Definition.outline i) := by
  simp only [displayDefinitions, List.map_flatMap, Definition.lines_display]

/-- The walk and the outline have the same lines for each node that can be shown, and the same
    failure for the others. -/
theorem Node.lines_display (i : Indent) (node : Node) :
    (node.display i).map (·.map Written.line) = (node.outline? i).map (·.getD []) := by
  cases node with
  | type => rfl
  | parameter => rfl
  | program p =>
    rw [display, outline?, Except.map, Except.map, List.map_cons, lines_displayDefinitions]
    rfl
  | definitionList items => exact congrArg Except.ok (lines_displayDefinitions i 1 items)
  | definition d => exact congrArg Except.ok (d.lines_display i 1)
  | parameterList l => exact congrArg Except.ok (l.lines_display i 1)
  | body b => exact congrArg Except.ok (b.lines_display i 1)
  | expr e => exact congrArg Except.ok (e.lines_display i 1)
  | argumentList l => exact congrArg Except.ok (Arguments.lines_display i 1 l.tag l.items)
  | argument a => exact congrArg Except.ok (a.value.lines_display i 2)

/-- A walk ends each line, while the lines of an outline are only parted. -/
theorem writtenText_eq {lines : List Written} (hlines : lines ≠ []) :
    writtenText lines = join "\n" (lines.map Written.line) ++ "\n" := by
  induction lines with
  | nil => exact absurd rfl hlines
  | cons first rest ih =>
    have hfirst : writtenText (first :: rest) = first.line ++ "\n" ++ writtenText rest := by
      rw [writtenText, writtenText, List.map_cons, String.join_cons]
    rw [hfirst]
    cases rest with
    | nil => simp [writtenText]
    | cons second rest =>
      rw [ih (List.cons_ne_nil _ _)]
      simp only [List.map_cons, join_cons_cons, String.append_assoc]

/-- Only a type fails, and it is the node itself that fails, before anything is written. -/
theorem Node.display_eq_error_iff (i : Indent) (node : Node) (e : NotShown) :
    node.display i = .error e ↔ (∃ t, node = .type t) ∧ e = ⟨node⟩ := by
  cases node <;> simp [display, eq_comm]

theorem Node.text_eq_error_iff (i : Indent) (node : Node) (e : NotShown) :
    node.text i = .error e ↔ (∃ t, node = .type t) ∧ e = ⟨node⟩ := by
  cases node <;> simp [text, outline?, Except.map, eq_comm]

/-- A node that can be walked down has an outline with the lines that are written. -/
theorem Node.outline?_of_display {i : Indent} {node : Node} {written : List Written}
    (hdisplay : node.display i = .ok written) :
    ∃ outline, node.outline? i = .ok outline ∧ outline.getD [] = written.map Written.line := by
  have hlines := node.lines_display i
  rw [hdisplay] at hlines
  cases houtline : node.outline? i with
  | error e =>
    rw [houtline] at hlines
    cases hlines
  | ok outline =>
    rw [houtline] at hlines
    exact ⟨outline, rfl, (Except.ok.inj hlines).symm⟩

/-- The text of a node and a walk down it agree for each level and spacer. They fail for the same
    nodes, which are types that are shown on their own. Otherwise the walk writes the text and ends
    its last line, or it writes nothing and the text is empty or missing. -/
theorem Node.text_agrees_with_display (i : Indent) (node : Node) :
    (∀ e, node.text i = .error e ↔ node.display i = .error e) ∧
    match node.display i with
    | .error e => e = ⟨node⟩ ∧ ∃ t, node = .type t
    | .ok [] => node.text i = .ok none ∨ node.text i = .ok (some "")
    | .ok (first :: rest) =>
      ∃ text, node.text i = .ok (some text) ∧ writtenText (first :: rest) = text ++ "\n" := by
  refine ⟨fun e => (node.text_eq_error_iff i e).trans (node.display_eq_error_iff i e).symm, ?_⟩
  split
  · rename_i e hdisplay
    exact ((node.display_eq_error_iff i e).mp hdisplay).symm
  · rename_i hdisplay
    obtain ⟨outline, houtline, hlines⟩ := outline?_of_display hdisplay
    rw [text, houtline]
    cases outline with
    | none => exact .inl rfl
    | some lines =>
      obtain rfl : lines = [] := hlines
      exact .inr rfl
  · rename_i first rest hdisplay
    obtain ⟨outline, houtline, hlines⟩ := outline?_of_display hdisplay
    rw [text, houtline]
    cases outline with
    | none => cases hlines
    | some lines =>
      obtain rfl : lines = (first :: rest).map Written.line := hlines
      exact ⟨_, rfl, writtenText_eq (List.cons_ne_nil _ _)⟩

end Klein
