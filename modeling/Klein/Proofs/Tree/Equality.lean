import Klein.Analysis.Program
import Klein.Tree.Equality
import Klein.Tree.Path

namespace Klein

open Analysis

namespace Ty

/-- An annotation without parts. -/
def IsSimple : Ty → Prop
  | empty | integer | boolean | error => True
  | sequence _ | union _ | function _ _ => False

/-- Nothing but a simple annotation itself agrees with it on its right. -/
theorem agrees_iff_of_simple {a b : Ty} (hb : b.IsSimple) : a.agrees b = true ↔ a = b := by
  cases b with
  | empty | integer | boolean | error =>
    cases a <;> simp [agrees, agreesOr, simpleAgrees, sameSimple]
  | sequence _ | union _ | function _ _ => exact hb.elim

theorem agreeEach_of_self {converse : Bool} {items : List Ty}
    (hself : ∀ a ∈ items, agreesOr converse a a = true) :
    agreeEach converse items items = true := by
  induction items with
  | nil => simp [agreeEach]
  | cons a items ih =>
    rw [agreeEach, hself a (by simp), ih fun b hb => hself b (by simp [hb])]
    rfl

theorem agreeAll_of_subset {options others : List Ty} (hsubset : ∀ a ∈ options, a ∈ others)
    (hself : ∀ a ∈ options, agreesOr true a a = true) : agreeAll options others = true := by
  induction options with
  | nil => simp [agreeAll]
  | cons a options ih =>
    have hsome : (others.any fun b => agreesOr true a b) = true :=
      List.any_eq_true.mpr ⟨a, hsubset a (by simp), hself a (by simp)⟩
    rw [agreeAll, hsome,
      ih (fun b hb => hsubset b (by simp [hb])) fun b hb => hself b (by simp [hb])]
    rfl

theorem agreeSome_of_mem {options : List Ty} {b : Ty} (hb : b ∈ options)
    (hself : agreesOr false b b = true) : agreeSome options b = true := by
  induction options with
  | nil => cases hb
  | cons a options ih =>
    rw [agreeSome, Bool.or_eq_true]
    rcases List.mem_cons.mp hb with rfl | hb
    · exact .inl hself
    · exact .inr (ih hb)

mutual

theorem agreesOr_self : (converse : Bool) → (a : Ty) → agreesOr converse a a = true
  | converse, .empty | converse, .integer | converse, .boolean | converse, .error => by
    cases converse <;> simp [agreesOr, simpleAgrees, sameSimple]
  | converse, .sequence items => by
    rw [agreesOr]
    exact agreeEach_of_self fun a ha => agreesOr_self_of_mem converse items a ha
  | converse, .function source result => by
    rw [agreesOr, agreeEach_of_self fun a ha => agreesOr_self_of_mem converse source a ha,
      agreesOr_self converse result]
    rfl
  | false, .union options => by
    rw [agreesOr]
    exact agreeAll_of_subset (fun _ ha => ha) fun a ha => agreesOr_self_of_mem true options a ha
  | true, .union options => by
    rw [agreesOr]
    simp only [if_true, List.all_eq_true]
    exact fun a ha => agreeSome_of_mem ha (agreesOr_self_of_mem false options a ha)

theorem agreesOr_self_of_mem : (converse : Bool) → (items : List Ty) →
    ∀ a ∈ items, agreesOr converse a a = true
  | _, [] => by simp
  | converse, a :: items => by
    rw [List.forall_mem_cons]
    exact ⟨agreesOr_self converse a, agreesOr_self_of_mem converse items⟩

end

/-- Every annotation agrees with itself. -/
theorem agrees_self (a : Ty) : a.agrees a = true :=
  agreesOr_self false a

end Ty

theorem tagsAlike_self (tag : Tag) : tagsAlike tag tag = true := by
  cases tag with
  | none => rfl
  | some a => exact a.agrees_self

/-- A tag without parts is like no other one on its left. -/
theorem eq_of_tagsAlike_simple {tag other : Tag} (hother : ∀ b ∈ other, b.IsSimple)
    (halike : tagsAlike tag other = true) : tag = other := by
  cases tag with
  | none =>
    cases other with
    | none => rfl
    | some b => cases halike
  | some a =>
    cases other with
    | none => cases halike
    | some b => rw [(Ty.agrees_iff_of_simple (hother b rfl)).mp halike]

/-- The tag is absent, or the one that follows from what is below the node. -/
def Forced (tag expected : Tag) : Prop :=
  tag = none ∨ tag = expected

theorem eq_of_tagsAlike_forced {tag other expected : Tag} (htag : Forced tag expected)
    (hother : Forced other expected) (halike : tagsAlike tag other = true) : tag = other := by
  rcases htag with rfl | rfl
  · cases other with
    | none => rfl
    | some b => cases halike
  · rcases hother with rfl | rfl
    · cases tag with
      | none => rfl
      | some a => cases halike
    · rfl

/-- The tag of a conditional whose parts have certain tags. -/
def conditionalTag (condition consequent alternative : Tag) : Tag := do
  return (judgeConditional none (← condition) (← consequent) (← alternative)).type

/-- The tag of a list of arguments. -/
def Arguments.listTag (arguments : Arguments) : Tag :=
  some (.sequence (arguments.toList.filterMap (·.tag)))

mutual

/-- An expression in which every annotation has no parts, or follows from those below it. -/
def Expr.Ruled : Expr → Prop
  | .integer tag _ | .boolean tag _ | .identifier tag _ => ∀ a ∈ tag, a.IsSimple
  | .unary tag _ value => (∀ a ∈ tag, a.IsSimple) ∧ value.Ruled
  | .binary tag _ left right => (∀ a ∈ tag, a.IsSimple) ∧ left.Ruled ∧ right.Ruled
  | .conditional tag condition consequent alternative =>
    Forced tag (conditionalTag condition.tag consequent.tag alternative.tag) ∧
      condition.Ruled ∧ consequent.Ruled ∧ alternative.Ruled
  | .call tag _ listTag arguments =>
    (∀ a ∈ tag, a.IsSimple) ∧ Forced listTag arguments.listTag ∧ arguments.Ruled

def Arguments.Ruled : Arguments → Prop
  | .nil => True
  | .cons tag value rest => Forced tag value.tag ∧ value.Ruled ∧ rest.Ruled

end

def TypeNode.Ruled (t : TypeNode) : Prop :=
  Forced t.tag (some t.base.ty)

structure Parameter.Ruled (p : Parameter) : Prop where
  tag : Forced p.tag (some p.type.base.ty)
  type : p.type.Ruled

structure ParameterList.Ruled (l : ParameterList) : Prop where
  tag : Forced l.tag (some (.sequence (parameterTypes l.items)))
  items : ∀ p ∈ l.items, p.Ruled

structure Argument.Ruled (a : Argument) : Prop where
  tag : Forced a.tag a.value.tag
  value : a.value.Ruled

structure ArgumentList.Ruled (l : ArgumentList) : Prop where
  tag : Forced l.tag l.items.listTag
  items : l.items.Ruled

structure Body.Ruled (b : Body) : Prop where
  tag : Forced b.tag b.result.tag
  prints : ∀ c ∈ b.prints, c.toExpr.Ruled
  result : b.result.Ruled

structure Definition.Ruled (d : Definition) : Prop where
  tag : Forced d.tag (some (.function (parameterTypes d.parameters.items) d.returnType.base.ty))
  parameters : d.parameters.Ruled
  returnType : d.returnType.Ruled
  body : d.body.Ruled

/-- A node from which all annotations downwards follow the rules. -/
def Node.Ruled : Node → Prop
  | .program p => ∀ d ∈ p.definitions, d.Ruled
  | .definitionList items => ∀ d ∈ items, d.Ruled
  | .definition d => d.Ruled
  | .parameterList l => l.Ruled
  | .parameter p => p.Ruled
  | .type t => t.Ruled
  | .body b => b.Ruled
  | .expr e => e.Ruled
  | .argumentList l => l.Ruled
  | .argument a => a.Ruled

mutual

theorem Expr.alike_self : (e : Expr) → e.alike e = true
  | .integer .. | .boolean .. | .identifier .. => by
    simp [Expr.alike, tagsAlike_self]
  | .unary _ _ value => by
    simp [Expr.alike, tagsAlike_self, value.alike_self]
  | .binary _ _ left right => by
    simp [Expr.alike, tagsAlike_self, left.alike_self, right.alike_self]
  | .conditional _ condition consequent alternative => by
    simp [Expr.alike, tagsAlike_self, condition.alike_self, consequent.alike_self,
      alternative.alike_self]
  | .call _ _ _ arguments => by
    simp [Expr.alike, tagsAlike_self, arguments.alike_self]

theorem Arguments.alike_self : (arguments : Arguments) → arguments.alike arguments = true
  | .nil => by simp [Arguments.alike]
  | .cons _ value rest => by
    simp [Arguments.alike, tagsAlike_self, value.alike_self, rest.alike_self]

end

theorem listsAlike_self {α : Type} {alike : α → α → Bool} (hself : ∀ a, alike a a = true)
    (items : List α) : listsAlike alike items items = true := by
  induction items with
  | nil => rfl
  | cons a items ih => rw [listsAlike, hself, ih]; rfl

theorem TypeNode.alike_self (t : TypeNode) : t.alike t = true := by
  simp [TypeNode.alike, tagsAlike_self]

theorem ParameterList.alike_self (l : ParameterList) : l.alike l = true := by
  have hself : ∀ p : Parameter, p.alike p = true := by
    simp [Parameter.alike, tagsAlike_self, TypeNode.alike_self]
  simp [ParameterList.alike, tagsAlike_self, listsAlike_self hself]

theorem Body.alike_self (b : Body) : b.alike b = true := by
  have hself : ∀ c : Call, c.alike c = true := fun c => c.toExpr.alike_self
  simp [Body.alike, tagsAlike_self, listsAlike_self hself, Expr.alike_self]

theorem Definition.alike_self (d : Definition) : d.alike d = true := by
  simp [Definition.alike, tagsAlike_self, ParameterList.alike_self, TypeNode.alike_self,
    Body.alike_self]

theorem Node.alike_self (node : Node) : node.alike node = true := by
  cases node with
  | program p => exact listsAlike_self Definition.alike_self p.definitions
  | definitionList items => exact listsAlike_self Definition.alike_self items
  | definition d => exact d.alike_self
  | parameterList l => exact l.alike_self
  | parameter p => simp [Node.alike, Parameter.alike, tagsAlike_self, TypeNode.alike_self]
  | type t => exact t.alike_self
  | body b => exact b.alike_self
  | expr e => exact e.alike_self
  | argumentList l => simp [Node.alike, ArgumentList.alike, tagsAlike_self, Arguments.alike_self]
  | argument a => simp [Node.alike, Argument.alike, tagsAlike_self, Expr.alike_self]

mutual

theorem Expr.eq_of_alike : {e other : Expr} → e.Ruled → other.Ruled →
    e.alike other = true → e = other
  | .integer .., other, _, hother, halike => by
    cases other with
    | integer tag text =>
      simp only [Expr.alike, Bool.and_eq_true, beq_iff_eq] at halike
      obtain ⟨htag, rfl⟩ := halike
      rw [eq_of_tagsAlike_simple hother htag]
    | _ => simp [Expr.alike] at halike
  | .boolean .., other, _, hother, halike => by
    cases other with
    | boolean tag text =>
      simp only [Expr.alike, Bool.and_eq_true, beq_iff_eq] at halike
      obtain ⟨htag, rfl⟩ := halike
      rw [eq_of_tagsAlike_simple hother htag]
    | _ => simp [Expr.alike] at halike
  | .identifier .., other, _, hother, halike => by
    cases other with
    | identifier tag name =>
      simp only [Expr.alike, Bool.and_eq_true, beq_iff_eq] at halike
      obtain ⟨htag, rfl⟩ := halike
      rw [eq_of_tagsAlike_simple hother htag]
    | _ => simp [Expr.alike] at halike
  | .unary .., other, hruled, hother, halike => by
    cases other with
    | unary tag op value =>
      simp only [Expr.alike, Bool.and_eq_true, decide_eq_true_eq] at halike
      obtain ⟨⟨htag, rfl⟩, hvalue⟩ := halike
      rw [eq_of_tagsAlike_simple hother.1 htag, Expr.eq_of_alike hruled.2 hother.2 hvalue]
    | _ => simp [Expr.alike] at halike
  | .binary .., other, hruled, hother, halike => by
    cases other with
    | binary tag op left right =>
      simp only [Expr.alike, Bool.and_eq_true, decide_eq_true_eq] at halike
      obtain ⟨⟨⟨htag, rfl⟩, hleft⟩, hright⟩ := halike
      rw [eq_of_tagsAlike_simple hother.1 htag, Expr.eq_of_alike hruled.2.1 hother.2.1 hleft,
        Expr.eq_of_alike hruled.2.2 hother.2.2 hright]
    | _ => simp [Expr.alike] at halike
  | .conditional .., other, hruled, hother, halike => by
    cases other with
    | conditional tag condition consequent alternative =>
      simp only [Expr.alike, Bool.and_eq_true] at halike
      obtain ⟨⟨⟨htag, hcondition⟩, hconsequent⟩, halternative⟩ := halike
      obtain ⟨hforced, hruled₁, hruled₂, hruled₃⟩ := hruled
      obtain ⟨hforced', hother₁, hother₂, hother₃⟩ := hother
      -- the parts are the same, so the same tag follows from them
      obtain rfl := Expr.eq_of_alike hruled₁ hother₁ hcondition
      obtain rfl := Expr.eq_of_alike hruled₂ hother₂ hconsequent
      obtain rfl := Expr.eq_of_alike hruled₃ hother₃ halternative
      rw [eq_of_tagsAlike_forced hforced hforced' htag]
    | _ => simp [Expr.alike] at halike
  | .call .., other, hruled, hother, halike => by
    cases other with
    | call tag callee listTag arguments =>
      simp only [Expr.alike, Bool.and_eq_true, beq_iff_eq] at halike
      obtain ⟨⟨⟨htag, rfl⟩, hlist⟩, harguments⟩ := halike
      obtain rfl := Arguments.eq_of_alike hruled.2.2 hother.2.2 harguments
      rw [eq_of_tagsAlike_simple hother.1 htag,
        eq_of_tagsAlike_forced hruled.2.1 hother.2.1 hlist]
    | _ => simp [Expr.alike] at halike

theorem Arguments.eq_of_alike : {arguments others : Arguments} → arguments.Ruled → others.Ruled →
    arguments.alike others = true → arguments = others
  | .nil, others, _, _, halike => by
    cases others with
    | nil => rfl
    | cons => simp [Arguments.alike] at halike
  | .cons .., others, hruled, hother, halike => by
    cases others with
    | nil => simp [Arguments.alike] at halike
    | cons tag value rest =>
      simp only [Arguments.alike, Bool.and_eq_true] at halike
      obtain ⟨⟨htag, hvalue⟩, hrest⟩ := halike
      obtain rfl := Expr.eq_of_alike hruled.2.1 hother.2.1 hvalue
      rw [eq_of_tagsAlike_forced hruled.1 hother.1 htag,
        Arguments.eq_of_alike hruled.2.2 hother.2.2 hrest]

end

theorem eq_of_listsAlike {α : Type} {alike : α → α → Bool} {items others : List α}
    (hsame : ∀ a ∈ items, ∀ b ∈ others, alike a b = true → a = b)
    (halike : listsAlike alike items others = true) : items = others := by
  induction items generalizing others with
  | nil =>
    cases others with
    | nil => rfl
    | cons => cases halike
  | cons a items ih =>
    cases others with
    | nil => cases halike
    | cons b others =>
      rw [listsAlike, Bool.and_eq_true] at halike
      rw [hsame a (by simp) b (by simp) halike.1,
        ih (fun a ha b hb => hsame a (by simp [ha]) b (by simp [hb])) halike.2]

theorem TypeNode.eq_of_alike {t other : TypeNode} (hruled : t.Ruled) (hother : other.Ruled)
    (halike : t.alike other = true) : t = other := by
  obtain ⟨tag, base⟩ := t
  obtain ⟨tag', base'⟩ := other
  simp only [TypeNode.alike, Bool.and_eq_true, decide_eq_true_eq] at halike
  obtain ⟨htag, rfl⟩ := halike
  obtain rfl : tag = tag' := eq_of_tagsAlike_forced hruled hother htag
  rfl

theorem Parameter.eq_of_alike {p other : Parameter} (hruled : p.Ruled) (hother : other.Ruled)
    (halike : p.alike other = true) : p = other := by
  obtain ⟨tag, name, type⟩ := p
  obtain ⟨tag', name', type'⟩ := other
  simp only [Parameter.alike, Bool.and_eq_true, beq_iff_eq] at halike
  obtain ⟨⟨htag, rfl⟩, htype⟩ := halike
  obtain rfl : type = type' := TypeNode.eq_of_alike hruled.type hother.type htype
  obtain rfl : tag = tag' := eq_of_tagsAlike_forced hruled.tag hother.tag htag
  rfl

theorem ParameterList.eq_of_alike {l other : ParameterList} (hruled : l.Ruled)
    (hother : other.Ruled) (halike : l.alike other = true) : l = other := by
  obtain ⟨tag, items⟩ := l
  obtain ⟨tag', items'⟩ := other
  simp only [ParameterList.alike, Bool.and_eq_true] at halike
  obtain rfl : items = items' := eq_of_listsAlike
    (fun p hp q hq => Parameter.eq_of_alike (hruled.items p hp) (hother.items q hq)) halike.2
  obtain rfl : tag = tag' := eq_of_tagsAlike_forced hruled.tag hother.tag halike.1
  rfl

theorem ArgumentList.eq_of_alike {l other : ArgumentList} (hruled : l.Ruled)
    (hother : other.Ruled) (halike : l.alike other = true) : l = other := by
  obtain ⟨tag, items⟩ := l
  obtain ⟨tag', items'⟩ := other
  simp only [ArgumentList.alike, Bool.and_eq_true] at halike
  obtain rfl : items = items' := Arguments.eq_of_alike hruled.items hother.items halike.2
  obtain rfl : tag = tag' := eq_of_tagsAlike_forced hruled.tag hother.tag halike.1
  rfl

theorem Argument.eq_of_alike {a other : Argument} (hruled : a.Ruled) (hother : other.Ruled)
    (halike : a.alike other = true) : a = other := by
  obtain ⟨tag, value⟩ := a
  obtain ⟨tag', value'⟩ := other
  simp only [Argument.alike, Bool.and_eq_true] at halike
  obtain rfl : value = value' := Expr.eq_of_alike hruled.value hother.value halike.2
  obtain rfl : tag = tag' := eq_of_tagsAlike_forced hruled.tag hother.tag halike.1
  rfl

theorem Call.eq_of_alike {c other : Call} (hruled : c.toExpr.Ruled) (hother : other.toExpr.Ruled)
    (halike : c.alike other = true) : c = other := by
  have hsame := congrArg Expr.toCall? (Expr.eq_of_alike hruled hother halike)
  exact Option.some.inj hsame

theorem Body.eq_of_alike {b other : Body} (hruled : b.Ruled) (hother : other.Ruled)
    (halike : b.alike other = true) : b = other := by
  obtain ⟨tag, prints, result⟩ := b
  obtain ⟨tag', prints', result'⟩ := other
  simp only [Body.alike, Bool.and_eq_true] at halike
  obtain ⟨⟨htag, hprints⟩, hresult⟩ := halike
  obtain rfl : prints = prints' := eq_of_listsAlike
    (fun c hc d hd => Call.eq_of_alike (hruled.prints c hc) (hother.prints d hd)) hprints
  obtain rfl : result = result' := Expr.eq_of_alike hruled.result hother.result hresult
  obtain rfl : tag = tag' := eq_of_tagsAlike_forced hruled.tag hother.tag htag
  rfl

theorem Definition.eq_of_alike {d other : Definition} (hruled : d.Ruled) (hother : other.Ruled)
    (halike : d.alike other = true) : d = other := by
  obtain ⟨tag, name, parameters, returnType, body⟩ := d
  obtain ⟨tag', name', parameters', returnType', body'⟩ := other
  simp only [Definition.alike, Bool.and_eq_true, beq_iff_eq] at halike
  obtain ⟨⟨⟨⟨htag, rfl⟩, hparameters⟩, hreturn⟩, hbody⟩ := halike
  obtain rfl : parameters = parameters' :=
    ParameterList.eq_of_alike hruled.parameters hother.parameters hparameters
  obtain rfl : returnType = returnType' :=
    TypeNode.eq_of_alike hruled.returnType hother.returnType hreturn
  obtain rfl : body = body' := Body.eq_of_alike hruled.body hother.body hbody
  obtain rfl : tag = tag' := eq_of_tagsAlike_forced hruled.tag hother.tag htag
  rfl

/-- Where annotations follow the rules, nodes are alike only if they are the same. -/
theorem Node.eq_of_alike {node other : Node} (hruled : node.Ruled) (hother : other.Ruled)
    (halike : node.alike other = true) : node = other := by
  cases node with
  | program p =>
    cases other with
    | program q =>
      obtain ⟨definitions⟩ := p
      obtain ⟨definitions'⟩ := q
      obtain rfl := eq_of_listsAlike
        (fun d hd e he => Definition.eq_of_alike (hruled d hd) (hother e he)) halike
      rfl
    | _ => cases halike
  | definitionList items =>
    cases other with
    | definitionList items' =>
      rw [eq_of_listsAlike
        (fun d hd e he => Definition.eq_of_alike (hruled d hd) (hother e he)) halike]
    | _ => cases halike
  | definition d =>
    cases other with
    | definition d' => rw [Definition.eq_of_alike hruled hother halike]
    | _ => cases halike
  | parameterList l =>
    cases other with
    | parameterList l' => rw [ParameterList.eq_of_alike hruled hother halike]
    | _ => cases halike
  | parameter p =>
    cases other with
    | parameter p' => rw [Parameter.eq_of_alike hruled hother halike]
    | _ => cases halike
  | type t =>
    cases other with
    | type t' => rw [TypeNode.eq_of_alike hruled hother halike]
    | _ => cases halike
  | body b =>
    cases other with
    | body b' => rw [Body.eq_of_alike hruled hother halike]
    | _ => cases halike
  | expr e =>
    cases other with
    | expr e' => rw [Expr.eq_of_alike hruled hother halike]
    | _ => cases halike
  | argumentList l =>
    cases other with
    | argumentList l' => rw [ArgumentList.eq_of_alike hruled hother halike]
    | _ => cases halike
  | argument a =>
    cases other with
    | argument a' => rw [Argument.eq_of_alike hruled hother halike]
    | _ => cases halike

theorem Node.alike_iff_eq {node other : Node} (hruled : node.Ruled) (hother : other.Ruled) :
    node.alike other = true ↔ node = other := by
  constructor
  · exact Node.eq_of_alike hruled hother
  · rintro rfl
    exact node.alike_self

/-- The nodes of a part follow the rules. -/
def Part.Ruled : Part → Prop
  | .one node => node.Ruled
  | .many nodes => ∀ node ∈ nodes, node.Ruled

theorem ruled_nameNode (name : String) : (nameNode name).Ruled := by
  simp [nameNode, Node.Ruled, Expr.Ruled]

theorem Arguments.Ruled.argument {arguments : Arguments} (h : arguments.Ruled) :
    ∀ a ∈ arguments.toList, a.Ruled := by
  fun_induction Arguments.toList arguments with
  | case1 => simp
  | case2 tag value rest ih =>
    obtain ⟨htag, hvalue, hrest⟩ := h
    rw [List.forall_mem_cons]
    exact ⟨⟨htag, hvalue⟩, ih hrest⟩

theorem Arguments.ruled_ofList {items : List Argument} (hitems : ∀ a ∈ items, a.Ruled) :
    (Arguments.ofList items).Ruled := by
  induction items with
  | nil => trivial
  | cons a items ih =>
    obtain ⟨ha, hrest⟩ := List.forall_mem_cons.mp hitems
    exact ⟨ha.tag, ha.value, ih hrest⟩

theorem Expr.Ruled.parts {e : Expr} (h : e.Ruled) : ∀ entry ∈ Node.exprParts e, entry.2.Ruled := by
  cases e with
  | integer | boolean | identifier => exact List.forall_mem_nil _
  | unary tag op value => exact List.forall_mem_singleton.mpr h.2
  | binary tag op left right =>
    simp only [Node.exprParts, List.forall_mem_cons]
    exact ⟨h.2.1, h.2.2, List.forall_mem_nil _⟩
  | conditional tag condition consequent alternative =>
    simp only [Node.exprParts, List.forall_mem_cons]
    exact ⟨h.2.1, h.2.2.1, h.2.2.2, List.forall_mem_nil _⟩
  | call tag callee listTag arguments =>
    simp only [Node.exprParts, List.forall_mem_cons]
    exact ⟨ruled_nameNode callee, ⟨h.2.1, h.2.2⟩, List.forall_mem_nil _⟩

theorem Node.Ruled.parts {node : Node} (h : node.Ruled) : ∀ entry ∈ node.parts, entry.2.Ruled := by
  cases node with
  | program p => exact List.forall_mem_singleton.mpr h
  | definitionList items => exact List.forall_mem_singleton.mpr (List.forall_mem_map.mpr h)
  | definition d =>
    simp only [Node.parts, List.forall_mem_cons]
    exact ⟨ruled_nameNode d.name, h.parameters, h.returnType, h.body, List.forall_mem_nil _⟩
  | parameterList l => exact List.forall_mem_singleton.mpr (List.forall_mem_map.mpr h.items)
  | parameter p =>
    simp only [Node.parts, List.forall_mem_cons]
    exact ⟨ruled_nameNode p.name, h.type, List.forall_mem_nil _⟩
  | type t => exact List.forall_mem_nil _
  | body b =>
    simp only [Node.parts, List.forall_mem_cons]
    exact ⟨List.forall_mem_map.mpr h.prints, h.result, List.forall_mem_nil _⟩
  | expr e => exact Expr.Ruled.parts h
  | argumentList l =>
    exact List.forall_mem_singleton.mpr (List.forall_mem_map.mpr h.items.argument)
  | argument a => exact List.forall_mem_singleton.mpr h.value

theorem mem_of_elementAt {α : Type} {container indexName : String} {items : List α} {index : Int}
    {item : α} (h : elementAt container indexName items index = .ok item) : item ∈ items := by
  unfold elementAt at h
  split at h
  · cases h
  · split at h
    · rename_i found hfound
      cases h
      obtain ⟨i, -, hitem⟩ := Option.bind_eq_some_iff.mp hfound
      exact List.mem_of_getElem? hitem
    · cases h

/-- A step of a path leads to nodes that follow the rules. -/
theorem Part.Ruled.step {part next : Part} {step : PathStep} (h : part.Ruled)
    (hstep : part.step step = .ok next) : next.Ruled := by
  cases part with
  | one node =>
    cases step with
    | part name =>
      simp only [Part.step] at hstep
      split at hstep
      · rename_i hfound
        cases hstep
        obtain ⟨before, after, hparts, -⟩ := List.lookup_eq_some_iff.mp hfound
        exact Node.Ruled.parts h (name, next) (by simp [hparts])
      · cases hstep
    | index i => cases hstep
  | many nodes =>
    cases step with
    | part name => cases hstep
    | index i =>
      simp only [Part.step] at hstep
      split at hstep
      · rename_i node hnode
        cases hstep
        exact h node (mem_of_elementAt hnode)
      · cases hstep

theorem Part.Ruled.steps {part last : Part} {path : List PathStep} (h : part.Ruled)
    (hsteps : path.foldlM Part.step part = .ok last) : last.Ruled := by
  induction path generalizing part with
  | nil =>
    cases hsteps
    exact h
  | cons step path ih =>
    rw [List.foldlM_cons] at hsteps
    cases hstep : part.step step with
    | error e => simp [hstep, bind, Except.bind] at hsteps
    | ok next =>
      rw [hstep] at hsteps
      exact ih (h.step hstep) hsteps

/-- The nodes below a node that follows the rules follow them too. -/
theorem Node.Ruled.follow {node below : Node} {path : List PathStep} (h : node.Ruled)
    (hfollow : node.follow path = .ok below) : below.Ruled := by
  unfold Node.follow at hfollow
  cases hsteps : path.foldlM Part.step (.one node) with
  | error e => simp [hsteps, bind, Except.bind] at hfollow
  | ok last =>
    have hone : (Part.one node).Ruled := h
    have hlast := hone.steps hsteps
    rw [hsteps] at hfollow
    cases last with
    | one found =>
      cases hfollow
      exact hlast
    | many nodes => cases hfollow

end Klein
