import Klein.Proofs.Code.Instructions

namespace Klein

open Machine Register

/-- The error of code for some expressions: the first one that is not a literal. -/
def refusal? (parts : List Expr) : Option CodeError :=
  (parts.find? (·.literal?.isNone)).map fun e => .unsupported (Node.expr e).form

theorem refusal?_append (parts others : List Expr) :
    refusal? (parts ++ others) = (refusal? parts).or (refusal? others) := by
  rw [refusal?, List.find?_append, Option.map_or]
  rfl

/-- The values that a call outputs. -/
def Call.parts (c : Call) : List Expr :=
  c.arguments.items.toList.map (·.value)

/-- The expressions of a definition for which code is made, in order. -/
def Definition.parts (d : Definition) : List Expr :=
  d.body.prints.flatMap Call.parts ++ [d.body.result]

def Program.parts (p : Program) : List Expr :=
  p.definitions.flatMap Definition.parts

/-- The making of something for some expressions. It comes to an end if all of them are literals,
    and else the first one that is not a literal is refused. -/
def Making.Refuses {α : Type} (x : Making α) (parts : List Expr) : Prop :=
  ∀ l, x.Ends l (fun _ _ => refusal? parts = none) fun e => refusal? parts = some e

section

variable {α β : Type} {x : Making α} {f : α → Making β} {parts others : List Expr}

theorem Making.Refuses.bind (hx : x.Refuses parts) (hf : ∀ a, (f a).Refuses others) :
    (x >>= f).Refuses (parts ++ others) := by
  intro l
  have hfirst := (hx l).mono (fun _ _ => id) fun e (he : refusal? parts = some e) =>
    show refusal? (parts ++ others) = some e by rw [refusal?_append, he, Option.some_or]
  refine hfirst.bind fun a after hnone => ?_
  rw [refusal?_append, hnone, Option.none_or]
  exact hf a after

theorem Making.Refuses.bind_pure {g : α → β} (hx : x.Refuses parts) :
    (x >>= fun a => pure (g a)).Refuses parts :=
  fun l => (hx l).bind fun _ _ hnone => Making.ends_pure hnone

theorem refuses_mapM {items : List α} {make : α → Making β} {parts : α → List Expr}
    (h : ∀ a ∈ items, (make a).Refuses (parts a)) :
    (items.mapM make).Refuses (items.flatMap parts) := by
  induction items with
  | nil => exact fun _ => Making.ends_pure rfl
  | cons a items ih =>
    rw [List.forall_mem_cons] at h
    rw [List.mapM_cons, List.flatMap_cons]
    exact h.1.bind fun _ => (ih h.2).bind_pure

end

theorem Code.Makes.refuses {code : Code} {block : List Instruction} (h : code.Makes block) :
    code.Refuses [] :=
  fun l => (h l).mono (fun _ _ _ => rfl) fun _ => False.elim

variable {table : SymbolTable} {p : Program} {d : Definition} {m n : Nat}

theorem refuses_valueCode (r : Int) (e : Expr) : (valueCode r (.expr e)).Refuses [e] := by
  cases e <;> exact fun _ => rfl

theorem refuses_outputCode {c : Call} (address : Int)
    (hprint : parameterCount table "print" = .ok n) (hcall : c.IsPrint) :
    (outputCode table address c).Refuses c.parts := by
  obtain ⟨tag, value, harguments, -⟩ := hcall.argument
  have hparts : c.parts = [value] ++ [] := by
    rw [Call.parts, harguments]
    rfl
  intro l
  refine Making.ends_lift_bind (printArgument_cons harguments) ?_
  rw [hparts]
  exact (refuses_valueCode temporary value).bind
    (fun _ => (makes_callCode address _ hprint).refuses.bind_pure) l

theorem refuses_functionCode (hmain : parameterCount table "main" = .ok m)
    (hprint : parameterCount table "print" = .ok n) (hlegal : d.Legal) :
    (functionCode table d).Refuses d.parts := by
  intro l
  refine Making.ends_lift_bind hmain ?_
  refine (makes_heading d.name).bind fun title _ _ => ?_
  refine makes_entrySequence.bind fun saved after _ => ?_
  refine (refuses_mapM fun c hc =>
    refuses_outputCode (printAddress m) hprint (hlegal.body.prints c hc)).bind
      (fun outputs next => ?_) after
  refine (refuses_valueCode result d.body.result next).bind fun value _ hnone => ?_
  refine command_bind fun store _ _ => ?_
  exact (makes_exitSequence _).bind fun back _ _ => Making.ends_pure hnone

/-- Code for a program fails at the first expression that is not a literal, and for no other
    reason. -/
theorem refuses_programCode (hmain : parameterCount table "main" = .ok m)
    (hprint : parameterCount table "print" = .ok n) (hlegal : p.Legal) :
    (programCode table p).Refuses p.parts := by
  intro l
  refine (makes_setupCode hmain).bind fun setup _ _ => ?_
  refine (makes_printCode hprint).bind fun print after _ => ?_
  exact (refuses_mapM fun d hd =>
    refuses_functionCode hmain hprint (hlegal d hd)).bind_pure after

theorem Making.Refuses.error {code : Code} {parts : List Expr} (h : code.Refuses parts) :
    code.error = refusal? parts := by
  obtain ⟨lines, after, hrun, hnone⟩ | ⟨e, after, hrun, he⟩ := (h {}).cases
  · rw [Code.error, hrun, hnone]
  · rw [Code.error, hrun, he]

theorem Definition.map_literal?_parts (hlegal : d.Legal) :
    d.parts.map Expr.literal? = d.body.literals := by
  have hcalls : ∀ calls : List Call, (∀ c ∈ calls, c.IsPrint) →
      (calls.flatMap Call.parts).map Expr.literal? = calls.map Call.literal? := by
    intro calls hprints
    induction calls with
    | nil => rfl
    | cons c calls ih =>
      rw [List.forall_mem_cons] at hprints
      obtain ⟨tag, value, harguments, -⟩ := hprints.1.argument
      rw [List.flatMap_cons, List.map_append, ih hprints.2, Call.parts, List.map_cons,
        Call.literal?, harguments]
      rfl
  rw [parts, List.map_append, hcalls _ hlegal.body.prints]
  rfl

/-- Nothing but literals has code. -/
theorem refusal?_eq_none_iff (hlegal : p.Legal) :
    refusal? p.parts = none ↔ ∀ d ∈ p.definitions, none ∉ d.body.literals := by
  simp only [refusal?, Option.map_eq_none_iff, List.find?_eq_none, Program.parts,
    List.mem_flatMap, Option.isNone_iff_eq_none]
  constructor
  · intro hparts d hd hnone
    rw [← d.map_literal?_parts (hlegal d hd), List.mem_map] at hnone
    obtain ⟨e, he, hliteral⟩ := hnone
    exact hparts e ⟨d, hd, he⟩ hliteral
  · rintro hliterals e ⟨d, hd, he⟩ hliteral
    refine hliterals d hd ?_
    rw [← d.map_literal?_parts (hlegal d hd), ← hliteral]
    exact List.mem_map_of_mem he

end Klein
