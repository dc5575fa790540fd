import Klein.Tree.Basic
import Mathlib.Data.Finset.Insert
import Mathlib.Data.Finset.Lattice.Basic

namespace Klein

/-- The types that a function takes and the type that it gives. -/
structure Signature where
  parameters : List BaseType
  result : BaseType
deriving DecidableEq, Repr

/-- The declared types of the names that may be used in an expression. -/
structure Declared where
  parameter : String → Option BaseType
  function : String → Option Signature

def Definition.signature (d : Definition) : Signature :=
  ⟨d.parameters.items.map (·.type.base), d.returnType.base⟩

/-- What some parameters and the definitions of a program declare. The first of several parameters
    or definitions of one name counts. -/
def Program.declares (p : Program) (parameters : List Parameter) : Declared where
  parameter name := (parameters.find? (·.name = name)).map (·.type.base)
  function name := (p.definitions.find? (·.name = name)).map Definition.signature

/-- What is declared for the expressions of a definition. -/
def Program.declaredIn (p : Program) (d : Definition) : Declared :=
  p.declares d.parameters.items

/-- The type of an operation with one operand, and of its operand. -/
def UnaryOp.type : UnaryOp → BaseType
  | minus => .integer
  | not => .boolean

/-- The type that an operation wants its operands to have. An equation has no wishes. -/
def BinaryOp.operandType : BinaryOp → Option BaseType
  | plus | minus | times | divide | lessThan => some .integer
  | and | or => some .boolean
  | equals => none

def BinaryOp.resultType : BinaryOp → BaseType
  | plus | minus | times | divide => .integer
  | lessThan | equals | and | or => .boolean

namespace Declared

variable (names : Declared)

/-- The types that an expression may have, depending on the branches that are taken in it. -/
def possible : Expr → Finset BaseType
  | .integer _ _ => {.integer}
  | .boolean _ _ => {.boolean}
  | .identifier _ name => (names.parameter name).elim ∅ ({·})
  | .unary _ op _ => {op.type}
  | .binary _ op _ _ => {op.resultType}
  | .conditional _ _ consequent alternative => possible consequent ∪ possible alternative
  | .call _ callee _ _ => (names.function callee).elim ∅ fun signature => {signature.result}

end Declared

/-- An expression that stands where one type is wanted. No type is wanted of an argument for which
    the function has no parameter. -/
structure Demand where
  value : Expr
  wanted : Option BaseType

/-- Arguments stand where the types of the parameters are wanted. -/
def Arguments.demandsFor : Arguments → List BaseType → List Demand
  | .nil, _ => []
  | .cons _ value rest, types => ⟨value, types.head?⟩ :: rest.demandsFor types.tail

mutual

/-- The expressions inside an expression that stand where one type is wanted. -/
def Expr.demands (names : Declared) : Expr → List Demand
  | .integer _ _ | .boolean _ _ | .identifier _ _ => []
  | .unary _ op value => ⟨value, some op.type⟩ :: value.demands names
  | .binary _ op left right =>
    (op.operandType.toList.flatMap fun t => [⟨left, some t⟩, ⟨right, some t⟩]) ++
      (left.demands names ++ right.demands names)
  | .conditional _ condition consequent alternative =>
    ⟨condition, some .boolean⟩ ::
      (condition.demands names ++ consequent.demands names ++ alternative.demands names)
  | .call _ callee _ arguments =>
    (names.function callee).elim [] (arguments.demandsFor ·.parameters) ++ arguments.demands names

def Arguments.demands (names : Declared) : Arguments → List Demand
  | .nil => []
  | .cons _ value rest => value.demands names ++ rest.demands names

end

/-- The expressions of a definition that stand where one type is wanted. The arguments of `print`
    may be of any type. -/
def Definition.demands (names : Declared) (d : Definition) : List Demand :=
  d.body.prints.flatMap (·.arguments.items.demands names) ++
    ⟨d.body.result, some d.returnType.base⟩ :: d.body.result.demands names

/-- No union is lost among the branches of an expression: no alternative in it is annotated with
    one. -/
def Expr.Settled : Expr → Prop
  | .conditional _ _ consequent alternative =>
    consequent.Settled ∧ alternative.Settled ∧ ∀ options, alternative.tag ≠ some (.union options)
  | _ => True

mutual

/-- An annotated expression that the checker finds nothing wrong with, and its annotation. -/
inductive Typed (names : Declared) : Expr → Ty → Prop
  | integer {text} : Typed names (.integer (some .integer) text) .integer
  | boolean {text} : Typed names (.boolean (some .boolean) text) .boolean
  | identifier {name t} : names.parameter name = some t →
      Typed names (.identifier (some t.ty) name) t.ty
  | unary {op value} : Typed names value op.type.ty →
      Typed names (.unary (some op.type.ty) op value) op.type.ty
  | operation {op left right t} : op.operandType = some t → Typed names left t.ty →
      Typed names right t.ty →
      Typed names (.binary (some op.resultType.ty) op left right) op.resultType.ty
  | equation {left right a b} : Typed names left a → Typed names right b →
      Typed names (.binary (some .boolean) .equals left right) .boolean
  | agreeing {condition consequent alternative a b} : Typed names condition .boolean →
      Typed names consequent a → Typed names alternative b → a.agrees b = true →
      Typed names (.conditional (some a) condition consequent alternative) a
  | differing {condition consequent alternative a b} : Typed names condition .boolean →
      Typed names consequent a → Typed names alternative b → a.agrees b = false →
      Typed names (.conditional (some (.union [a, b])) condition consequent alternative)
        (.union [a, b])
  | call {callee listTag arguments signature} : names.function callee = some signature →
      TypedArguments names arguments signature.parameters →
      Typed names (.call (some signature.result.ty) callee listTag arguments) signature.result.ty

/-- Arguments that have the types of the parameters. -/
inductive TypedArguments (names : Declared) : Arguments → List BaseType → Prop
  | nil : TypedArguments names .nil []
  | cons {tag value rest t types} : Typed names value t.ty → TypedArguments names rest types →
      TypedArguments names (.cons tag value rest) (t :: types)

end

/-- An annotation covers some types: a base type is one of them, and a union is all there are. -/
def Ty.Covers (types : Finset BaseType) : Ty → Prop
  | .integer => .integer ∈ types
  | .boolean => .boolean ∈ types
  | .union _ => ∀ t, t ∈ types
  | _ => False

theorem Ty.covers_ty {types : Finset BaseType} {t : BaseType} : t.ty.Covers types ↔ t ∈ types := by
  cases t <;> rfl

theorem Ty.Covers.mono {types more : Finset BaseType} {a : Ty} (h : a.Covers types)
    (hsub : types ⊆ more) : a.Covers more := by
  cases a with
  | integer | boolean => exact hsub h
  | union options => exact fun t => hsub (h t)
  | _ => exact h

/-- Nothing but a base type agrees with that base type on its right. -/
theorem Ty.agrees_ty {a : Ty} {t : BaseType} : a.agrees t.ty = true ↔ a = t.ty := by
  cases a <;> cases t <;>
    simp [Ty.agrees, Ty.agreesOr, Ty.simpleAgrees, Ty.sameSimple, BaseType.ty]

/-- On its left a base type agrees with a union as well. -/
theorem Ty.agrees_ty_left {t : BaseType} {b : Ty} (h : t.ty.agrees b = true) :
    b = t.ty ∨ ∃ options, b = .union options := by
  cases t <;> cases b <;>
    simp_all [Ty.agrees, Ty.agreesOr, Ty.simpleAgrees, Ty.sameSimple, BaseType.ty]

/-- Two annotations that do not agree cover all types between them. -/
theorem Ty.Covers.all_of_differ {types others : Finset BaseType} {a b : Ty} (ha : a.Covers types)
    (hb : b.Covers others) (hdiffer : a.agrees b = false) (t : BaseType) : t ∈ types ∪ others := by
  rw [Finset.mem_union]
  cases a with
  | union options => exact .inl (ha t)
  | integer | boolean =>
    cases b with
    | union options => exact .inr (hb t)
    | integer | boolean =>
      cases t <;> simp_all [Covers, Ty.agrees, Ty.agreesOr, Ty.simpleAgrees, Ty.sameSimple]
    | _ => exact absurd hb id
  | _ => exact absurd ha id

variable {names : Declared}

theorem Typed.tag_eq {e : Expr} {type : Ty} (h : Typed names e type) : e.tag = some type := by
  cases h <;> rfl

/-- What is found nothing wrong with has an annotation that covers its possible types. -/
theorem Typed.covers : {e : Expr} → {type : Ty} → Typed names e type →
    type.Covers (names.possible e)
  | .integer .., _, .integer | .boolean .., _, .boolean => by
    simp [Ty.Covers, Declared.possible]
  | .identifier .., _, .identifier hparameter => by
    simp [Ty.covers_ty, Declared.possible, hparameter]
  | .unary .., _, .unary _ | .binary .., _, .operation .. => by
    simp [Ty.covers_ty, Declared.possible]
  | .binary .., _, .equation .. => by
    simp [Ty.Covers, Declared.possible, BinaryOp.resultType]
  | .conditional .., _, .agreeing _ hconsequent _ _ =>
    hconsequent.covers.mono Finset.subset_union_left
  | .conditional .., _, .differing _ hconsequent halternative hdiffer =>
    hconsequent.covers.all_of_differ halternative.covers hdiffer
  | .call .., _, .call hfunction _ => by
    simp [Ty.covers_ty, Declared.possible, hfunction]

/-- Two sets that share a member have no other members together if and only if neither has. -/
private theorem union_eq_singleton {types others : Finset BaseType} {t : BaseType} (ht : t ∈ types)
    (ht' : t ∈ others) : types ∪ others = {t} ↔ types = {t} ∧ others = {t} := by
  constructor
  · intro h
    have hsub : ∀ x, x ∈ types ∨ x ∈ others → x = t := by
      intro x hx
      have hmem : x ∈ types ∪ others := Finset.mem_union.mpr hx
      rw [h] at hmem
      exact Finset.mem_singleton.mp hmem
    refine ⟨?_, ?_⟩
    · exact Finset.eq_singleton_iff_unique_mem.mpr ⟨ht, fun x hx => hsub x (.inl hx)⟩
    · exact Finset.eq_singleton_iff_unique_mem.mpr ⟨ht', fun x hx => hsub x (.inr hx)⟩
  · rintro ⟨rfl, rfl⟩
    exact Finset.union_self _

/-- An expression that is annotated with a type has no other possible type if and only if no union
    was lost among its branches. -/
theorem Typed.possible_eq_iff {e : Expr} {t : BaseType} (h : Typed names e t.ty) :
    names.possible e = {t} ↔ e.Settled := by
  have hmem := Ty.covers_ty.mp h.covers
  cases e with
  | integer | boolean | unary | binary =>
    have hsame := Finset.mem_singleton.mp hmem
    simp [Declared.possible, Expr.Settled, hsame]
  | identifier tag name =>
    cases hparameter : names.parameter name with
    | none => simp [Declared.possible, hparameter] at hmem
    | some found => simp_all [Declared.possible, Expr.Settled]
  | call tag callee listTag arguments =>
    cases hfunction : names.function callee with
    | none => simp [Declared.possible, hfunction] at hmem
    | some signature => simp_all [Declared.possible, Expr.Settled]
  | conditional tag condition consequent alternative =>
    -- a conditional with a base type as its annotation took it from its consequent
    obtain ⟨b, hconsequent, halternative, hagrees⟩ : ∃ b, Typed names consequent t.ty ∧
        Typed names alternative b ∧ t.ty.agrees b = true := by
      generalize htype : t.ty = type at h
      cases h with
      | agreeing _ hconsequent halternative hagrees => exact ⟨_, hconsequent, halternative, hagrees⟩
      | differing => cases t <;> cases htype
    rw [Declared.possible, Expr.Settled, halternative.tag_eq]
    rcases Ty.agrees_ty_left hagrees with rfl | ⟨options, rfl⟩
    · rw [union_eq_singleton (Ty.covers_ty.mp hconsequent.covers)
        (Ty.covers_ty.mp halternative.covers), hconsequent.possible_eq_iff,
        halternative.possible_eq_iff]
      cases t <;> simp [BaseType.ty]
    · -- The union that was lost offers both types.
      have hall : ∀ x, x ∈ names.possible alternative := halternative.covers
      have hmore : names.possible consequent ∪ names.possible alternative ≠ {t} := by
        intro hsingle
        have hother : ∀ x, x = t := by
          intro x
          have hx := Finset.mem_union_right (names.possible consequent) (hall x)
          rw [hsingle] at hx
          exact Finset.mem_singleton.mp hx
        have hfalse : BaseType.integer = .boolean := (hother _).trans (hother _).symm
        cases hfalse
      simp [hmore]

/-- Where a type is wanted, an expression is annotated with it and may have it, and it can have no
    other type if and only if no union was lost. -/
def Demand.Met (names : Declared) (demand : Demand) : Prop :=
  ∃ t, demand.wanted = some t ∧ demand.value.tag = some t.ty ∧
    t ∈ names.possible demand.value ∧ (names.possible demand.value = {t} ↔ demand.value.Settled)

theorem Typed.met {e : Expr} {t : BaseType} (h : Typed names e t.ty) :
    Demand.Met names ⟨e, some t⟩ :=
  ⟨t, rfl, h.tag_eq, Ty.covers_ty.mp h.covers, h.possible_eq_iff⟩

theorem TypedArguments.met : {arguments : Arguments} → {types : List BaseType} →
    TypedArguments names arguments types →
    ∀ demand ∈ arguments.demandsFor types, demand.Met names
  | .nil, _, _ => by simp [Arguments.demandsFor]
  | .cons .., _, .cons hvalue hrest => by
    have hmet := hrest.met
    simpa [Arguments.demandsFor] using ⟨hvalue.met, hmet⟩

mutual

/-- Inside what is found nothing wrong with, all demands are met. -/
theorem Typed.demands_met : {e : Expr} → {type : Ty} → Typed names e type →
    ∀ demand ∈ e.demands names, demand.Met names
  | .integer .., _, _ | .boolean .., _, _ | .identifier .., _, _ => by
    simp [Expr.demands]
  | .unary .., _, .unary hvalue => by
    simpa [Expr.demands] using ⟨hvalue.met, hvalue.demands_met⟩
  | .binary .., _, .operation htype hleft hright => by
    have hl := hleft.demands_met
    have hr := hright.demands_met
    simp only [Expr.demands, htype, Option.toList, List.flatMap_cons, List.flatMap_nil,
      List.append_nil, List.mem_append, List.mem_cons, List.not_mem_nil, or_false]
    rintro demand ((rfl | rfl) | hdemand | hdemand)
    · exact hleft.met
    · exact hright.met
    · exact hl demand hdemand
    · exact hr demand hdemand
  | .binary .., _, .equation hleft hright => by
    simpa [Expr.demands, BinaryOp.operandType, or_imp, forall_and] using
      ⟨hleft.demands_met, hright.demands_met⟩
  | .conditional .., _, .agreeing hcondition hconsequent halternative _
  | .conditional .., _, .differing hcondition hconsequent halternative _ => by
    simpa [Expr.demands, or_imp, forall_and] using
      ⟨hcondition.met, hcondition.demands_met, hconsequent.demands_met, halternative.demands_met⟩
  | .call .., _, .call hfunction harguments => by
    simpa [Expr.demands, hfunction, or_imp, forall_and] using
      ⟨harguments.met, harguments.demands_met⟩

theorem TypedArguments.demands_met : {arguments : Arguments} → {types : List BaseType} →
    TypedArguments names arguments types → ∀ demand ∈ arguments.demands names, demand.Met names
  | .nil, _, _ => by simp [Arguments.demands]
  | .cons .., _, .cons hvalue hrest => by
    simpa [Arguments.demands, or_imp, forall_and] using ⟨hvalue.demands_met, hrest.demands_met⟩

end

end Klein
