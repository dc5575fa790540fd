import Klein.Proofs.Analysis.Scopes

namespace Klein

mutual

/-- The types of expressions by the declared types of names. A function is not seen where a
    parameter has its name. -/
inductive HasType (names : Declared) : Expr → BaseType → Prop
  | integer {tag text} : HasType names (.integer tag text) .integer
  | boolean {tag text} : HasType names (.boolean tag text) .boolean
  | identifier {tag name t} : names.parameter name = some t → HasType names (.identifier tag name) t
  | unary {tag op value} : HasType names value op.type → HasType names (.unary tag op value) op.type
  | operation {tag op left right t} : op.operandType = some t → HasType names left t →
      HasType names right t → HasType names (.binary tag op left right) op.resultType
  | equation {tag left right t u} : HasType names left t → HasType names right u →
      HasType names (.binary tag .equals left right) .boolean
  | conditional {tag condition consequent alternative t} : HasType names condition .boolean →
      HasType names consequent t → HasType names alternative t →
      HasType names (.conditional tag condition consequent alternative) t
  | call {tag callee listTag arguments signature} : names.parameter callee = none →
      names.function callee = some signature → HasTypes names arguments signature.parameters →
      HasType names (.call tag callee listTag arguments) signature.result

/-- The types of arguments in order. -/
inductive HasTypes (names : Declared) : Arguments → List BaseType → Prop
  | nil : HasTypes names .nil []
  | cons {tag value rest t types} : HasType names value t → HasTypes names rest types →
      HasTypes names (.cons tag value rest) (t :: types)

end

/-- A definition that keeps the rules: no parameter has the name of another one, each call of
    `print` has an argument of some type, and the value has the declared type. -/
structure Definition.WellTyped (names : Declared) (d : Definition) : Prop where
  parameters : (d.parameters.items.map (·.name)).Nodup
  prints : ∀ c ∈ d.body.prints, ∃ t, HasTypes names c.arguments.items [t]
  result : HasType names d.body.result d.returnType.base

/-- A program that keeps the rules: no function has the name of another one, one of them is `main`,
    and each definition keeps them. -/
structure Program.WellTyped (p : Program) : Prop where
  functions : (p.definitions.map (·.name)).Nodup
  main : "main" ∈ p.definitions.map (·.name)
  definitions : ∀ d ∈ p.definitions, d.WellTyped (p.declaredIn d)

variable {names : Declared}

mutual

theorem HasType.bare : {e : Expr} → {t : BaseType} → HasType names e t → HasType names e.bare t
  | .integer .., _, .integer => .integer
  | .boolean .., _, .boolean => .boolean
  | .identifier .., _, .identifier hname => .identifier hname
  | .unary .., _, .unary hvalue => .unary hvalue.bare
  | .binary .., _, .operation htype hleft hright => .operation htype hleft.bare hright.bare
  | .binary .., _, .equation hleft hright => .equation hleft.bare hright.bare
  | .conditional .., _, .conditional hcondition hconsequent halternative =>
    .conditional hcondition.bare hconsequent.bare halternative.bare
  | .call .., _, .call hfree hfunction harguments => .call hfree hfunction harguments.bare

theorem HasTypes.bare : {arguments : Arguments} → {types : List BaseType} →
    HasTypes names arguments types → HasTypes names arguments.bare types
  | .nil, _, .nil => .nil
  | .cons .., _, .cons hvalue hrest => .cons hvalue.bare hrest.bare

end

mutual

theorem HasType.of_bare : {e : Expr} → {t : BaseType} → HasType names e.bare t → HasType names e t
  | .integer .., _, .integer => .integer
  | .boolean .., _, .boolean => .boolean
  | .identifier .., _, .identifier hname => .identifier hname
  | .unary .., _, .unary hvalue => .unary hvalue.of_bare
  | .binary .., _, .operation htype hleft hright => .operation htype hleft.of_bare hright.of_bare
  | .binary .., _, .equation hleft hright => .equation hleft.of_bare hright.of_bare
  | .conditional .., _, .conditional hcondition hconsequent halternative =>
    .conditional hcondition.of_bare hconsequent.of_bare halternative.of_bare
  | .call .., _, .call hfree hfunction harguments => .call hfree hfunction harguments.of_bare

theorem HasTypes.of_bare : {arguments : Arguments} → {types : List BaseType} →
    HasTypes names arguments.bare types → HasTypes names arguments types
  | .nil, _, .nil => .nil
  | .cons .., _, .cons hvalue hrest => .cons hvalue.of_bare hrest.of_bare

end

/-- Expressions that differ in their annotations only have the same types. -/
theorem HasType.congr {e other : Expr} {t : BaseType} (h : HasType names e t)
    (hsame : other.bare = e.bare) : HasType names other t :=
  .of_bare (hsame ▸ h.bare)

theorem HasTypes.congr {arguments others : Arguments} {types : List BaseType}
    (h : HasTypes names arguments types) (hsame : others.bare = arguments.bare) :
    HasTypes names others types :=
  .of_bare (hsame ▸ h.bare)

mutual

/-- An expression and the expressions inside it. -/
def Expr.parts : Expr → List Expr
  | .integer tag text => [.integer tag text]
  | .boolean tag text => [.boolean tag text]
  | .identifier tag name => [.identifier tag name]
  | .unary tag op value => .unary tag op value :: value.parts
  | .binary tag op left right => .binary tag op left right :: (left.parts ++ right.parts)
  | .conditional tag condition consequent alternative =>
    .conditional tag condition consequent alternative ::
      (condition.parts ++ consequent.parts ++ alternative.parts)
  | .call tag callee listTag arguments => .call tag callee listTag arguments :: arguments.parts

def Arguments.parts : Arguments → List Expr
  | .nil => []
  | .cons _ value rest => value.parts ++ rest.parts

end

/-- The expressions of a body: those of its output and of its value. -/
def Body.expressions (b : Body) : List Expr :=
  b.prints.flatMap (·.arguments.items.parts) ++ b.result.parts

theorem Expr.self_mem_parts (e : Expr) : e ∈ e.parts := by
  cases e <;> simp [parts]

def Ty.isUnion : Ty → Bool
  | union _ => true
  | _ => false

/-- An expression that is not annotated with a union. -/
def Expr.Plain (e : Expr) : Prop :=
  ∀ type ∈ e.tag, type.isUnion = false

instance (e : Expr) : Decidable e.Plain :=
  inferInstanceAs (Decidable (∀ type ∈ e.tag, type.isUnion = false))

/-- An expression that is annotated with its type. -/
def Expr.Annotated (names : Declared) (e : Expr) : Prop :=
  ∃ t, e.tag = some t.ty ∧ HasType names e t

theorem Expr.Annotated.plain {e : Expr} (h : e.Annotated names) : e.Plain := by
  obtain ⟨t, htag, -⟩ := h
  intro type htype
  obtain rfl : t.ty = type := by simpa [htag] using htype
  cases t <;> rfl

theorem BaseType.ty_injective {t u : BaseType} (h : t.ty = u.ty) : t = u := by
  cases t <;> cases u <;> first | rfl | cases h

theorem Declared.visible_eq_some {name : String} {signature : Signature} :
    names.visible.function name = some signature ↔
      names.parameter name = none ∧ names.function name = some signature := by
  cases hparameter : names.parameter name <;> simp [visible, hparameter]

mutual

/-- What the checker finds nothing wrong with has a type where no union is among its annotations,
    and is annotated with that type. -/
theorem Typed.hasType : {e : Expr} → {type : Ty} → Typed names.visible e type →
    (∀ part ∈ e.parts, part.Plain) → ∃ t, type = t.ty ∧ HasType names e t
  | .integer .., _, .integer, _ => ⟨.integer, rfl, .integer⟩
  | .boolean .., _, .boolean, _ => ⟨.boolean, rfl, .boolean⟩
  | .identifier .., _, .identifier hname, _ => ⟨_, rfl, .identifier hname⟩
  | .unary .., _, .unary hvalue, hplain => by
    rw [Expr.parts, List.forall_mem_cons] at hplain
    obtain ⟨t, ht, hv⟩ := hvalue.hasType hplain.2
    exact ⟨_, rfl, .unary (BaseType.ty_injective ht ▸ hv)⟩
  | .binary .., _, .operation htype hleft hright, hplain => by
    rw [Expr.parts, List.forall_mem_cons, List.forall_mem_append] at hplain
    obtain ⟨t, ht, hl⟩ := hleft.hasType hplain.2.1
    obtain ⟨u, hu, hr⟩ := hright.hasType hplain.2.2
    exact ⟨_, rfl,
      .operation htype (BaseType.ty_injective ht ▸ hl) (BaseType.ty_injective hu ▸ hr)⟩
  | .binary .., _, .equation hleft hright, hplain => by
    rw [Expr.parts, List.forall_mem_cons, List.forall_mem_append] at hplain
    obtain ⟨t, -, hl⟩ := hleft.hasType hplain.2.1
    obtain ⟨u, -, hr⟩ := hright.hasType hplain.2.2
    exact ⟨.boolean, rfl, .equation hl hr⟩
  | .conditional .., _, .agreeing hcondition hconsequent halternative hagrees, hplain => by
    rw [Expr.parts, List.forall_mem_cons, List.forall_mem_append, List.forall_mem_append] at hplain
    obtain ⟨b, hb, hc⟩ := hcondition.hasType hplain.2.1.1
    obtain ⟨t, rfl, ht⟩ := hconsequent.hasType hplain.2.1.2
    obtain ⟨u, rfl, hu⟩ := halternative.hasType hplain.2.2
    obtain rfl : t = u := BaseType.ty_injective (Ty.agrees_ty.mp hagrees)
    obtain rfl : .boolean = b := BaseType.ty_injective hb
    exact ⟨t, rfl, .conditional hc ht hu⟩
  | .conditional .., _, .differing .., hplain =>
    nomatch hplain _ (Expr.self_mem_parts _) _ rfl
  | .call .., _, .call hfunction harguments, hplain => by
    rw [Expr.parts, List.forall_mem_cons] at hplain
    obtain ⟨hfree, hdeclared⟩ := Declared.visible_eq_some.mp hfunction
    exact ⟨_, rfl, .call hfree hdeclared (harguments.hasTypes hplain.2)⟩

theorem TypedArguments.hasTypes : {arguments : Arguments} → {types : List BaseType} →
    TypedArguments names.visible arguments types → (∀ part ∈ arguments.parts, part.Plain) →
    HasTypes names arguments types
  | .nil, _, .nil, _ => .nil
  | .cons .., _, .cons hvalue hrest, hplain => by
    rw [Arguments.parts, List.forall_mem_append] at hplain
    obtain ⟨t, ht, hv⟩ := hvalue.hasType hplain.1
    exact .cons (BaseType.ty_injective ht ▸ hv) (hrest.hasTypes hplain.2)

end

theorem HasType.of_binary {tag : Tag} {op : BinaryOp} {left right : Expr} {t : BaseType}
    (h : HasType names (.binary tag op left right) t) :
    t = op.resultType ∧ ∃ a b, HasType names left a ∧ HasType names right b := by
  cases h with
  | operation _ hleft hright => exact ⟨rfl, _, _, hleft, hright⟩
  | equation hleft hright => exact ⟨rfl, _, _, hleft, hright⟩

theorem Typed.of_binary {tag : Tag} {op : BinaryOp} {left right : Expr} {type : Ty}
    (h : Typed names (.binary tag op left right) type) :
    type = op.resultType.ty ∧ ∃ a b, Typed names left a ∧ Typed names right b := by
  cases h with
  | operation _ hleft hright => exact ⟨rfl, _, _, hleft, hright⟩
  | equation hleft hright => exact ⟨rfl, _, _, hleft, hright⟩

/-- The annotation of what has a type is that type. -/
theorem HasType.annotation_eq : {e : Expr} → {t : BaseType} → {type : Ty} → HasType names e t →
    Typed names.visible e type → type = t.ty
  | .integer .., _, _, .integer, .integer | .boolean .., _, _, .boolean, .boolean
  | .unary .., _, _, .unary _, .unary _ => rfl
  | .binary .., _, _, h, htyped => by
    rw [h.of_binary.1, htyped.of_binary.1]
  | .identifier .., _, _, .identifier hname, .identifier hother => by
    rw [Option.some.inj (hname.symm.trans hother)]
  | .conditional .., _, _, .conditional _ hconsequent _, .agreeing _ htyped _ _ =>
    hconsequent.annotation_eq htyped
  | .conditional .., _, _, .conditional _ hconsequent halternative,
    .differing _ htyped hother hdiffer => by
    rw [hconsequent.annotation_eq htyped, halternative.annotation_eq hother,
      Ty.agrees_ty.mpr rfl] at hdiffer
    cases hdiffer
  | .call .., _, _, .call _ hfunction _, .call hother _ => by
    rw [Option.some.inj (hfunction.symm.trans (Declared.visible_eq_some.mp hother).2)]

theorem HasType.annotated {e : Expr} {t : BaseType} {type : Ty} (h : HasType names e t)
    (htyped : Typed names.visible e type) : e.Annotated names :=
  ⟨t, htyped.tag_eq.trans (congrArg some (h.annotation_eq htyped)), h⟩

mutual

/-- Inside what has a type all expressions are annotated with their types. -/
theorem HasType.parts_annotated : {e : Expr} → {t : BaseType} → {type : Ty} → HasType names e t →
    Typed names.visible e type → ∀ part ∈ e.parts, part.Annotated names
  | .integer .., _, _, h, htyped | .boolean .., _, _, h, htyped
  | .identifier .., _, _, h, htyped => by
    simpa [Expr.parts] using h.annotated htyped
  | .unary .., _, _, h, htyped => by
    have hself := h.annotated htyped
    cases h with
    | unary hvalue =>
      cases htyped with
      | unary hv => simpa [Expr.parts] using ⟨hself, hvalue.parts_annotated hv⟩
  | .binary .., _, _, h, htyped => by
    have hself := h.annotated htyped
    obtain ⟨-, t, u, hleft, hright⟩ := h.of_binary
    obtain ⟨-, a, b, hl, hr⟩ := htyped.of_binary
    simpa [Expr.parts, or_imp, forall_and] using
      ⟨hself, hleft.parts_annotated hl, hright.parts_annotated hr⟩
  | .conditional .., _, _, h, htyped => by
    have hself := h.annotated htyped
    cases h with
    | conditional hcondition hconsequent halternative =>
      cases htyped with
      | agreeing hc ht he | differing hc ht he =>
        simpa [Expr.parts, or_imp, forall_and] using ⟨hself, hcondition.parts_annotated hc,
          hconsequent.parts_annotated ht, halternative.parts_annotated he⟩
  | .call .., _, _, h, htyped => by
    have hself := h.annotated htyped
    cases h with
    | call _ _ harguments =>
      cases htyped with
      | call _ ha => simpa [Expr.parts] using ⟨hself, harguments.parts_annotated ha⟩

theorem HasTypes.parts_annotated : {arguments : Arguments} → {types others : List BaseType} →
    HasTypes names arguments types → TypedArguments names.visible arguments others →
    ∀ part ∈ arguments.parts, part.Annotated names
  | .nil, _, _, .nil, .nil => by simp [Arguments.parts]
  | .cons .., _, _, .cons hvalue hrest, .cons hv hr => by
    simpa [Arguments.parts, or_imp, forall_and] using
      ⟨hvalue.parts_annotated hv, hrest.parts_annotated hr⟩

end

end Klein
