import Mathlib.Data.List.Induction
import Mathlib.Data.List.Nodup
import Mathlib.Logic.Equiv.List
import Klein.Proofs.Analysis.Soundness
import Klein.Tree.Graph
import Klein.Tree.Path

namespace Klein

/-- The way from a node down to one below it, as the number of the node to take at each step. The
    order of places is the pre-order of the tree. -/
abbrev Place := List Nat

def Part.nodes : Part → List Node
  | one node => [node]
  | many nodes => nodes

/-- The nodes right below a node in a drawing. What only names something and types are not drawn. -/
def Node.children (node : Node) : List Node :=
  (node.parts.filter fun part =>
    part.1 ∉ ["name", "function_name", "type", "return_type"]).flatMap (·.2.nodes)

/-- The node at a place. -/
def Node.at? : Node → Place → Option Node
  | node, [] => some node
  | node, k :: rest => node.children[k]?.bind fun child => child.at? rest

def BaseType.label : BaseType → String
  | integer => "Integer"
  | boolean => "Boolean"

def Expr.label : Expr → String
  | integer _ text => "IntegerLiteral " ++ text
  | boolean _ text => "BooleanLiteral " ++ text
  | identifier _ name => "Identifier " ++ name
  | unary _ .not _ => "NotExpression"
  | unary _ .minus _ => "UnaryMinusExpression"
  | binary _ .equals _ _ => "EqualsExpression"
  | binary _ .lessThan _ _ => "LessThanExpression"
  | binary _ .or _ _ => "OrExpression"
  | binary _ .plus _ _ => "PlusExpression"
  | binary _ .minus _ _ => "MinusExpression"
  | binary _ .times _ _ => "TimesExpression"
  | binary _ .divide _ _ => "DivideExpression"
  | binary _ .and _ _ => "AndExpression"
  | conditional .. => "IfExpression"
  | call _ callee _ _ => "FunctionCallExpression\n" ++ callee

/-- What a drawing says about a node. -/
def Node.label : Node → String
  | program _ => "Program"
  | definitionList _ => "DefinitionList"
  | definition d => "Definition\nname " ++ d.name ++ "\nreturns " ++ d.returnType.base.label
  | parameterList _ => "ParameterList"
  | parameter p => "name " ++ p.name ++ "\ntype " ++ p.type.base.label
  | type t => t.base.label
  | body _ => "Body"
  | argumentList _ => "ArgumentList"
  | argument _ => "Argument"
  | expr e => e.label

/-- What a drawing says about the branches from a node, in order. Most of them have no label. -/
def Node.roles : Node → List String
  | definition _ => ["parameters", "body"]
  | expr (.binary ..) => ["left_side", "right_side"]
  | expr (.conditional ..) => ["condition", "consequent", "alternative"]
  | _ => []

theorem Node.at?_append (node : Node) (a b : Place) :
    node.at? (a ++ b) = (node.at? a).bind fun found => found.at? b := by
  induction a generalizing node with
  | nil => rfl
  | cons k a ih =>
    rw [List.cons_append, at?, at?, Option.bind_assoc]
    exact congrArg _ (funext ih)

/-- The place above one where there is a node has a node too. -/
theorem Node.isSome_at?_dropLast {node : Node} {a : Place} (ha : (node.at? a).isSome) :
    (node.at? a.dropLast).isSome := by
  rcases List.eq_nil_or_concat a with rfl | ⟨above, k, rfl⟩
  · exact ha
  · rw [List.concat_eq_append, at?_append] at ha
    rw [List.concat_eq_append, List.dropLast_concat]
    exact Option.isSome_of_isSome_bind ha

def Sketch.label : Sketch → String
  | point label _ => label

def Sketch.branches : Sketch → Branches
  | point _ branches => branches

def Branches.targets : Branches → List Sketch
  | nil => []
  | cons _ target rest => target :: rest.targets

/-- The labels of branches. -/
def Branches.vias : Branches → List (Option String)
  | nil => []
  | cons via _ rest => via :: rest.vias

@[simp]
theorem Branches.targets_ofList (items : List (Option String × Sketch)) :
    (ofList items).targets = items.map Prod.snd := by
  induction items with
  | nil => rfl
  | cons item items ih => rw [ofList, targets, ih, List.map_cons]

theorem Sketch.vias_over (label : String) (targets : List Sketch) :
    ∀ via ∈ (Sketch.over label targets).branches.vias, via = none := by
  rw [Sketch.over, branches]
  induction targets with
  | nil => exact fun _ hvia => nomatch hvia
  | cons target targets ih => exact List.forall_mem_cons.mpr ⟨rfl, ih⟩

@[simp]
theorem Sketch.label_over (label : String) (targets : List Sketch) :
    (Sketch.over label targets).label = label :=
  rfl

@[simp]
theorem Sketch.targets_over (label : String) (targets : List Sketch) :
    (Sketch.over label targets).branches.targets = targets := by
  simp [Sketch.over, branches, Function.comp_def]

theorem Arguments.targets_branches (items : Arguments) :
    (items.toList.map Node.argument).map Node.sketch =
      items.branches.targets.map Except.ok := by
  cases items with
  | nil => rfl
  | cons _ _ rest =>
    have hrest := Arguments.targets_branches rest
    simp only [toList, branches, Branches.targets, List.map_cons, hrest]
    rfl

theorem Arguments.vias_branches (items : Arguments) : ∀ via ∈ items.branches.vias, via = none := by
  cases items with
  | nil => exact fun _ hvia => nomatch hvia
  | cons _ _ rest => exact List.forall_mem_cons.mpr ⟨rfl, Arguments.vias_branches rest⟩

theorem BaseType.toString_eq_label (t : BaseType) : t.toString = t.label := by
  cases t <;> rfl

theorem Expr.label_sketch (e : Expr) : e.sketch.label = e.label := by
  cases e with
  | integer _ text => exact congrArg (· ++ text) (show "IntegerLiteral" ++ " " = _ by decide)
  | boolean _ text => exact congrArg (· ++ text) (show "BooleanLiteral" ++ " " = _ by decide)
  | identifier _ name => exact congrArg (· ++ name) (show "Identifier" ++ " " = _ by decide)
  | unary _ op => cases op <;> rfl
  | binary _ op => cases op <;> rfl
  | conditional => rfl
  | call _ callee =>
    exact congrArg (· ++ callee) (show "FunctionCallExpression" ++ "\n" = _ by decide)

/-- The drawing of a node is labelled as it is, above the drawings of the nodes below it. -/
theorem Node.sketch_shape {node : Node} {s : Sketch} (hsketch : node.sketch = .ok s) :
    s.label = node.label ∧
      node.children.map Node.sketch = s.branches.targets.map Except.ok := by
  cases node with
  | type => cases hsketch
  | expr e =>
    cases hsketch
    refine ⟨e.label_sketch, ?_⟩
    cases e <;> simp [Expr.sketch, children, parts, exprParts, Part.nodes, sketch, title, form,
      Sketch.branches, Branches.targets]
  | argumentList l =>
    cases hsketch
    refine ⟨rfl, ?_⟩
    have harguments := l.items.targets_branches
    simpa [children, parts, Part.nodes, Sketch.branches] using harguments
  | definition d =>
    cases hsketch
    refine ⟨?_, ?_⟩
    · rw [Definition.sketch, Sketch.label, BaseType.toString_eq_label]
      rfl
    · simp [children, parts, Part.nodes, sketch, Definition.sketch, Sketch.branches,
        Branches.targets]
  | parameter p =>
    cases hsketch
    refine ⟨?_, ?_⟩
    · rw [Parameter.sketch, Sketch.label, BaseType.toString_eq_label]
      rfl
    · simp [children, parts, Parameter.sketch, Sketch.branches, Branches.targets]
  | program | definitionList | parameterList | body | argument =>
    cases hsketch
    refine ⟨rfl, ?_⟩
    simp [children, parts, Part.nodes, sketch, sketchDefinitions, ParameterList.sketch,
      Body.sketch, Function.comp_def]

/-- The branches from a node are labelled with what they are for. -/
theorem Node.vias_sketch {node : Node} {s : Sketch} (hsketch : node.sketch = .ok s) (k : Nat) :
    s.branches.vias[k]?.join = node.roles[k]? := by
  have hnone {vias : List (Option String)} (h : ∀ via ∈ vias, via = none) :
      vias[k]?.join = none := by
    cases hvia : vias[k]? with
    | none => rfl
    | some via => exact h via (List.mem_of_getElem? hvia)
  cases node with
  | type => cases hsketch
  | expr e =>
    cases hsketch
    cases e with
    | integer | boolean | identifier => rfl
    | unary | call => exact hnone (List.forall_mem_singleton.mpr rfl)
    | binary => match k with | 0 | 1 | _ + 2 => rfl
    | conditional => match k with | 0 | 1 | 2 | _ + 3 => rfl
  | definition d =>
    cases hsketch
    match k with | 0 | 1 | _ + 2 => rfl
  | parameter p =>
    cases hsketch
    rfl
  | argumentList l =>
    cases hsketch
    exact hnone l.items.vias_branches
  | program | definitionList | parameterList | body | argument =>
    cases hsketch
    exact hnone (Sketch.vias_over _ _)

/-- A point of a drawing: its place, its label, and the label of the branch that leads to it. -/
structure Point where
  place : Place
  via : Option String
  label : String

/-- A point as it is seen from the point above, where it is below the branch with a number. -/
def Point.under (k : Nat) (point : Point) : Point :=
  { point with place := k :: point.place }

mutual

/-- The points below the first one of a drawing, in pre-order. -/
def Sketch.descendants : Sketch → List Point
  | .point _ branches => branches.points 0

/-- The points of branches that are numbered from a given one. -/
def Branches.points (k : Nat) : Branches → List Point
  | .nil => []
  | .cons via target rest =>
    ⟨[k], via, target.label⟩ :: target.descendants.map (Point.under k) ++ rest.points (k + 1)

end

/-- The places of all points in pre-order. -/
def Sketch.places (s : Sketch) : List Place :=
  [] :: s.descendants.map Point.place

theorem Branches.place_of_mem {point : Point} : {k : Nat} → {b : Branches} →
    point ∈ b.points k → ∃ j rest, point.place = j :: rest ∧ k ≤ j
  | k, .cons via target rest, hpoint => by
    rw [Branches.points, List.cons_append, List.mem_cons, List.mem_append, List.mem_map] at hpoint
    rcases hpoint with rfl | ⟨lower, _, rfl⟩ | hrest
    · exact ⟨k, [], rfl, Nat.le_refl k⟩
    · exact ⟨k, lower.place, rfl, Nat.le_refl k⟩
    · obtain ⟨j, above, hplace, hj⟩ := place_of_mem hrest
      exact ⟨j, above, hplace, by omega⟩

theorem Sketch.place_ne_nil {s : Sketch} {point : Point} (hpoint : point ∈ s.descendants) :
    point.place ≠ [] := by
  cases s with
  | point label branches =>
    obtain ⟨j, rest, hplace, -⟩ := Branches.place_of_mem hpoint
    simp [hplace]

mutual

/-- Places are listed in pre-order. -/
theorem Sketch.pairwise_descendants (s : Sketch) :
    s.descendants.Pairwise fun point next => point.place < next.place := by
  cases s with
  | point label branches => exact Branches.pairwise_points 0 branches

theorem Branches.pairwise_points (k : Nat) (b : Branches) :
    (b.points k).Pairwise fun point next => point.place < next.place := by
  cases b with
  | nil => exact .nil
  | cons via target rest =>
    have htarget := Sketch.pairwise_descendants target
    rw [Branches.points, List.pairwise_append, List.pairwise_cons, List.pairwise_map]
    refine ⟨⟨?_, htarget.imp fun hlt => List.cons_lt_cons_iff.mpr (.inr ⟨rfl, hlt⟩)⟩,
      Branches.pairwise_points (k + 1) rest, ?_⟩
    · intro point hpoint
      obtain ⟨lower, hlower, rfl⟩ := List.mem_map.mp hpoint
      obtain ⟨j, above, hplace⟩ := List.exists_cons_of_ne_nil (Sketch.place_ne_nil hlower)
      rw [Point.under, hplace]
      exact List.cons_lt_cons_iff.mpr (.inr ⟨rfl, List.nil_lt_cons j above⟩)
    -- The points of a branch have its number, which is less than those of the branches after it.
    · intro point hpoint next hnext
      obtain ⟨j, beside, hnextPlace, hj⟩ := Branches.place_of_mem hnext
      obtain ⟨above, hplace⟩ : ∃ above, point.place = k :: above := by
        rcases List.mem_cons.mp hpoint with rfl | hpoint
        · exact ⟨[], rfl⟩
        · obtain ⟨lower, -, rfl⟩ := List.mem_map.mp hpoint
          exact ⟨lower.place, rfl⟩
      rw [hplace, hnextPlace]
      exact List.cons_lt_cons_iff.mpr (.inl (by omega))

end

theorem Sketch.pairwise_places (s : Sketch) : s.places.Pairwise (· < ·) := by
  refine List.pairwise_cons.mpr ⟨?_, List.pairwise_map.mpr s.pairwise_descendants⟩
  intro a ha
  obtain ⟨point, hpoint, rfl⟩ := List.mem_map.mp ha
  obtain ⟨j, above, hplace⟩ := List.exists_cons_of_ne_nil (place_ne_nil hpoint)
  rw [hplace]
  exact List.nil_lt_cons j above

/-- The places and labels of points. -/
def Point.mark (point : Point) : Place × String :=
  (point.place, point.label)

def Sketch.marks (s : Sketch) : List (Place × String) :=
  ([], s.label) :: s.descendants.map Point.mark

theorem Branches.mem_marks {a : Place} {k : Nat} {label : String} : (j : Nat) → (b : Branches) →
    ((k :: a, label) ∈ (b.points j).map Point.mark ↔
      j ≤ k ∧ ∃ target, b.targets[k - j]? = some target ∧ (a, label) ∈ target.marks)
  | j, .nil => by simp [Branches.points, Branches.targets]
  | j, .cons via target rest => by
    have hhere : (k :: a, label) ∈
        (⟨[j], via, target.label⟩ :: target.descendants.map (Point.under j)).map Point.mark ↔
          k = j ∧ (a, label) ∈ target.marks := by
      simp only [Sketch.marks, List.map_cons, List.map_map, List.mem_cons, List.mem_map,
        Point.mark, Point.under, Function.comp_apply, Prod.mk.injEq, List.cons.injEq]
      grind
    rw [Branches.points, List.map_append, List.mem_append, hhere, mem_marks (j + 1) rest,
      Branches.targets]
    rcases Nat.lt_trichotomy k j with hlt | rfl | hgt
    · constructor
      · rintro (⟨hsame, -⟩ | ⟨hle, -⟩) <;> omega
      · rintro ⟨hle, -⟩
        omega
    · simp
    · have hindex : k - j = (k - (j + 1)) + 1 := by omega
      rw [hindex, List.getElem?_cons_succ]
      constructor
      · rintro (⟨hsame, -⟩ | ⟨-, hfound⟩)
        · omega
        · exact ⟨by omega, hfound⟩
      · rintro ⟨-, hfound⟩
        exact .inr ⟨hgt, hfound⟩

theorem Sketch.mem_marks_cons {s : Sketch} {a : Place} {k : Nat} {label : String} :
    (k :: a, label) ∈ s.marks ↔
      ∃ target, s.branches.targets[k]? = some target ∧ (a, label) ∈ target.marks := by
  cases s with
  | point title branches =>
    have hmarks : (k :: a, label) ∈ (branches.points 0).map Point.mark ↔ _ :=
      Branches.mem_marks 0 branches
    simpa [marks, descendants, Sketch.branches] using hmarks

/-- There is a point with a label at a place if a node with that label is there. -/
theorem Node.mem_marks {node : Node} {s : Sketch} (hsketch : node.sketch = .ok s) (a : Place)
    (label : String) : (a, label) ∈ s.marks ↔ (node.at? a).map Node.label = some label := by
  obtain ⟨hlabel, hchildren⟩ := sketch_shape hsketch
  induction a generalizing node s with
  | nil =>
    have hroot : ∀ point ∈ s.descendants, point.mark ≠ ([], label) :=
      fun point hpoint hmark => Sketch.place_ne_nil hpoint (Prod.mk.inj hmark).1
    simp only [Sketch.marks, List.mem_cons, List.mem_map, at?, Option.map_some, hlabel]
    grind
  | cons k a ih =>
    have hchild := congrArg (·[k]?) hchildren
    simp only [List.getElem?_map] at hchild
    rw [Sketch.mem_marks_cons, at?]
    cases htarget : s.branches.targets[k]? with
    | none =>
      rw [htarget] at hchild
      simp_all
    | some target =>
      rw [htarget] at hchild
      obtain ⟨child, hfound, hdrawn⟩ := Option.map_eq_some_iff.mp hchild
      obtain ⟨hlabel, hbelow⟩ := sketch_shape hdrawn
      rw [hfound]
      simpa using ih hdrawn hlabel hbelow

/-- A point is right below one of the branches, or further down. -/
theorem Branches.cases_of_mem {point : Point} : (j : Nat) → (b : Branches) → point ∈ b.points j →
    ∃ k target, b.targets[k]? = some target ∧
      ((point.place = [j + k] ∧ point.via = b.vias[k]?.join) ∨
        ∃ lower ∈ target.descendants, point = lower.under (j + k))
  | j, .cons via target rest, hpoint => by
    rw [Branches.points, List.cons_append, List.mem_cons, List.mem_append, List.mem_map] at hpoint
    rcases hpoint with rfl | ⟨lower, hlower, rfl⟩ | hrest
    · exact ⟨0, target, rfl, .inl ⟨rfl, rfl⟩⟩
    · exact ⟨0, target, rfl, .inr ⟨lower, hlower, rfl⟩⟩
    · obtain ⟨k, found, hfound, hcases⟩ := cases_of_mem (j + 1) rest hrest
      rw [Nat.add_assoc, Nat.add_comm 1 k] at hcases
      exact ⟨k + 1, found, hfound, hcases⟩

/-- The label of the branch that leads to a place. -/
def Node.viaAt (node : Node) (a : Place) : Option String :=
  (node.at? a.dropLast).bind fun above => a.getLast?.bind (above.roles[·]?)

theorem Sketch.descendants_eq (s : Sketch) : s.descendants = s.branches.points 0 := by
  cases s
  rfl

theorem Node.via_of_mem {node : Node} {s : Sketch} (hsketch : node.sketch = .ok s) {point : Point}
    (hpoint : point ∈ s.descendants) : point.via = node.viaAt point.place := by
  -- by induction on the depth of the point, where the last step down is the branch that leads to it
  induction hplace : point.place generalizing node s point with
  | nil => exact absurd hplace (Sketch.place_ne_nil hpoint)
  | cons j a ih =>
    obtain ⟨k, target, htarget, hcases⟩ :=
      Branches.cases_of_mem 0 s.branches (s.descendants_eq ▸ hpoint)
    rw [Nat.zero_add] at hcases
    rcases hcases with ⟨hhere, hvia⟩ | ⟨lower, hlower, rfl⟩
    · rw [hvia, vias_sketch hsketch, ← hplace, hhere]
      rfl
    · obtain ⟨rfl, rfl⟩ := List.cons.inj hplace
      have hchild := congrArg (·[k]?) (sketch_shape hsketch).2
      simp only [List.getElem?_map, htarget, Option.map_some] at hchild
      obtain ⟨child, hfound, hdrawn⟩ := Option.map_eq_some_iff.mp hchild
      have hne := Sketch.place_ne_nil hlower
      have hbelow : node.viaAt (k :: lower.place) = child.viaAt lower.place := by
        rw [viaAt, List.dropLast_cons_of_ne_nil hne, List.getLast?_cons_of_ne_nil hne, at?, hfound]
        rfl
      have hlow : lower.via = child.viaAt lower.place := ih hdrawn hlower rfl
      exact hlow.trans hbelow.symm

theorem Sketch.map_fst_marks (s : Sketch) : s.marks.map Prod.fst = s.places := by
  simp [marks, places, Point.mark, Function.comp_def]

/-- The places of a drawing are those where there are nodes. -/
theorem Node.mem_places {node : Node} {s : Sketch} (hsketch : node.sketch = .ok s) (a : Place) :
    a ∈ s.places ↔ (node.at? a).isSome := by
  rw [← s.map_fst_marks, List.mem_map]
  constructor
  · rintro ⟨⟨_, label⟩, hmark, rfl⟩
    have hfound := (mem_marks hsketch _ label).mp hmark
    rw [← Option.isSome_map, hfound]
    rfl
  · intro hfound
    obtain ⟨found, hat⟩ := Option.isSome_iff_exists.mp hfound
    refine ⟨(a, found.label), (mem_marks hsketch a found.label).mpr ?_, rfl⟩
    rw [hat]
    rfl

variable {ι κ : Type}

namespace Statement

/-- A statement about other points. -/
def map (f : ι → κ) : Statement ι → Statement κ
  | point id label => .point (f id) label
  | branch source target label => .branch (f source) (f target) label

/-- The point that a statement labels, with the label. -/
def label? : Statement ι → Option (ι × String)
  | point id label => some (id, label)
  | branch .. => none

/-- The points that a statement links. -/
def edge? : Statement ι → Option (ι × ι)
  | point .. => none
  | branch source target _ => some (source, target)

/-- The points that a statement mentions, in the order in which it does. -/
def ids : Statement ι → List ι
  | point id _ => [id]
  | branch source target _ => [source, target]

theorem toString_map (f : ι → κ) (name : κ → String) (s : Statement ι) :
    (s.map f).toString name = s.toString (fun id => name (f id)) := by
  cases s with
  | point => rfl
  | branch _ _ label => cases label <;> rfl

end Statement

/-- The statements for a point that is not the first one. -/
def Point.stated (ident : Place → ι) (point : Point) : List (Statement ι) :=
  [.branch (ident point.place.dropLast) (ident point.place) point.via,
    .point (ident point.place) point.label]

theorem Point.stated_under {ident : Place → ι} {k : Nat} {point : Point}
    (hpoint : point.place ≠ []) :
    (point.under k).stated ident = point.stated fun a => ident (k :: a) := by
  rw [stated, stated, under, List.dropLast_cons_of_ne_nil hpoint]

/-- The statements for a drawing whose points have the given ids. -/
def Sketch.drawn (ident : Place → ι) (s : Sketch) : List (Statement ι) :=
  .point (ident []) s.label :: s.descendants.flatMap (Point.stated ident)

theorem Sketch.flatMap_under (ident : Place → ι) (k : Nat) (s : Sketch) :
    (s.descendants.map (Point.under k)).flatMap (Point.stated ident) =
      s.descendants.flatMap (Point.stated fun a => ident (k :: a)) := by
  rw [List.flatMap_map]
  exact List.flatMap_congr fun point hpoint => Point.stated_under (place_ne_nil hpoint)

/-- The ids of consecutive points are the names of consecutive numbers. -/
def Numbered (name : Nat → ι) (start : Nat) (ids : List ι) : Prop :=
  ids = (List.range' start ids.length).map name

theorem numbered_cons {name : Nat → ι} {start : Nat} {id : ι} {ids : List ι} :
    Numbered name start (id :: ids) ↔ id = name start ∧ Numbered name (start + 1) ids := by
  simp [Numbered, List.range'_succ]

theorem numbered_append {name : Nat → ι} {start : Nat} {ids others : List ι} :
    Numbered name start (ids ++ others) ↔
      Numbered name start ids ∧ Numbered name (start + ids.length) others := by
  induction ids generalizing start with
  | nil => simp [Numbered]
  | cons id ids ih =>
    rw [List.cons_append, numbered_cons, numbered_cons, ih, List.length_cons, and_assoc,
      Nat.add_assoc, Nat.add_comm 1]

theorem Branches.statements_cons (source next : Nat) (via : Option String) (target : Sketch)
    (rest : Branches) :
    (cons via target rest).statements source next =
      (.branch source next via :: ((target.statements next).1 ++
        (rest.statements source (target.statements next).2).1),
        (rest.statements source (target.statements next).2).2) :=
  rfl

mutual

/-- Points are numbered in pre-order: where the names of the numbers are the ids of the points in
    that order, each statement is about the points with these ids. -/
theorem Sketch.statements_eq_drawn {name : Nat → ι} {id : Nat} {ident : Place → ι} (s : Sketch)
    (hids : Numbered name id (s.places.map ident)) :
    (s.statements id).1.map (Statement.map name) = s.drawn ident ∧
      (s.statements id).2 = id + s.places.length := by
  cases s with
  | point label branches =>
    rw [Sketch.places, List.map_cons, List.map_map, numbered_cons] at hids
    obtain ⟨hroot, hbelow⟩ := hids
    obtain ⟨hstatements, hnext⟩ := Branches.statements_eq_drawn 0 branches hroot hbelow
    constructor
    · rw [Sketch.statements, List.map_cons, hstatements, Sketch.drawn, hroot]
      rfl
    · rw [Sketch.statements, hnext, Sketch.places, List.length_cons, List.length_map,
        Sketch.descendants]
      omega

theorem Branches.statements_eq_drawn {name : Nat → ι} {source next : Nat} {ident : Place → ι}
    (k : Nat) (b : Branches) (hsource : ident [] = name source)
    (hids : Numbered name next ((b.points k).map (ident ∘ Point.place))) :
    (b.statements source next).1.map (Statement.map name) =
        (b.points k).flatMap (Point.stated ident) ∧
      (b.statements source next).2 = next + (b.points k).length := by
  cases b with
  | nil => exact ⟨rfl, rfl⟩
  | cons via target rest =>
    rw [Branches.points, List.map_append, numbered_append] at hids
    obtain ⟨htarget, hrest⟩ := hids
    have hplaces : (⟨[k], via, target.label⟩ :: target.descendants.map (Point.under k)).map
        (ident ∘ Point.place) = target.places.map fun a => ident (k :: a) := by
      simp [Sketch.places, Point.under, Function.comp_def]
    rw [hplaces] at htarget hrest
    rw [List.length_map] at hrest
    obtain ⟨hhere, hnext⟩ := Sketch.statements_eq_drawn target htarget
    rw [← hnext] at hrest
    obtain ⟨hothers, hlast⟩ := Branches.statements_eq_drawn (k + 1) rest hsource hrest
    have hfirst : ident [k] = name next := (numbered_cons.mp htarget).1
    constructor
    · rw [Branches.statements_cons, List.map_cons, List.map_append, hhere, hothers,
        Branches.points, List.flatMap_append, List.flatMap_cons, Sketch.flatMap_under,
        Statement.map, ← hfirst, ← hsource]
      rfl
    · rw [Branches.statements_cons, hlast, hnext, Branches.points, List.length_append,
        List.length_cons, List.length_map, Sketch.places, List.length_cons, List.length_map]
      omega

end

/-- The label of the node at a place, where there is one. -/
def Node.labelAt (node : Node) (a : Place) : String :=
  ((node.at? a).map Node.label).getD ""

/-- Statements that draw the tree below a node, where the node at each place has an id. -/
structure DrawsTree [DecidableEq ι] (node : Node) (ident : Place → ι) (places : List Place)
    (drawn : List (Statement ι)) : Prop where
  /-- The places are in pre-order. -/
  preorder : places.Pairwise (· < ·)
  /-- They are all places where there is a node. -/
  mem_places : ∀ a, a ∈ places ↔ (node.at? a).isSome
  /-- The first node is labelled, and the others each have a branch from the node above them and a
      label. -/
  statements : drawn = .point (ident []) node.label :: (places.filter (· ≠ [])).flatMap fun a =>
    [.branch (ident a.dropLast) (ident a) (node.viaAt a), .point (ident a) (node.labelAt a)]
  /-- Each node is labelled. -/
  labels : drawn.filterMap Statement.label? = places.map fun a => (ident a, node.labelAt a)
  label_once : ∀ a ∈ places, ((drawn.filterMap Statement.label?).map Prod.fst).count (ident a) = 1
  /-- Each node but the first has an edge from the node above it. -/
  edges : drawn.filterMap Statement.edge? =
    (places.filter (· ≠ [])).map fun a => (ident a.dropLast, ident a)
  length_edges : (drawn.filterMap Statement.edge?).length + 1 = places.length
  edge_once : ∀ a ∈ places, ((drawn.filterMap Statement.edge?).map Prod.snd).count (ident a) =
    if a = [] then 0 else 1
  /-- An edge comes after the label of its source and before that of its target. -/
  edge_between : ∀ before source target via after,
    drawn = before ++ .branch source target via :: after →
      source ∈ (before.filterMap Statement.label?).map Prod.fst ∧
      target ∈ (after.filterMap Statement.label?).map Prod.fst
  /-- The ids are first mentioned in pre-order. -/
  first_mention : ∀ k a, places[k]? = some a →
    (drawn.flatMap Statement.ids).eraseDups.idxOf (ident a) = k

theorem Point.labels_stated (ident : Place → ι) (points : List Point) :
    (points.flatMap (stated ident)).filterMap Statement.label? =
      points.map fun point => (ident point.place, point.label) := by
  rw [List.filterMap_flatMap]
  exact List.flatMap_pure_eq_map _ points

theorem Point.edges_stated (ident : Place → ι) (points : List Point) :
    (points.flatMap (stated ident)).filterMap Statement.edge? =
      points.map fun point => (ident point.place.dropLast, ident point.place) := by
  rw [List.filterMap_flatMap]
  exact List.flatMap_pure_eq_map _ points

/-- An edge is stated for one of the points, right before its label. -/
theorem Point.split_stated {ident : Place → ι} {points : List Point}
    {before after : List (Statement ι)} {source target : ι} {via : Option String}
    (hsplit : points.flatMap (stated ident) = before ++ .branch source target via :: after) :
    ∃ earlier point later, points = earlier ++ point :: later ∧
      before = earlier.flatMap (stated ident) ∧ source = ident point.place.dropLast ∧
      after = .point target point.label :: later.flatMap (stated ident) := by
  induction points generalizing before with
  | nil => simp at hsplit
  | cons point points ih =>
    rw [List.flatMap_cons, stated, List.cons_append, List.cons_append, List.nil_append] at hsplit
    match before with
    | [] =>
      simp only [List.nil_append, List.cons.injEq, Statement.branch.injEq] at hsplit
      obtain ⟨⟨rfl, rfl, rfl⟩, rfl⟩ := hsplit
      exact ⟨[], point, points, rfl, rfl, rfl, rfl⟩
    | [_] => simp at hsplit
    | first :: second :: before =>
      simp only [List.cons_append, List.cons.injEq] at hsplit
      obtain ⟨rfl, rfl, hsplit⟩ := hsplit
      obtain ⟨earlier, found, later, rfl, rfl, hsource, hafter⟩ := ih hsplit
      exact ⟨point :: earlier, found, later, rfl, rfl, hsource, hafter⟩

theorem dropLast_lt {a : Place} (ha : a ≠ []) : a.dropLast < a := by
  induction a with
  | nil => exact absurd rfl ha
  | cons k a ih =>
    cases a with
    | nil => exact List.nil_lt_cons k []
    | cons j a => exact List.cons_lt_cons_iff.mpr (.inr ⟨rfl, ih (List.cons_ne_nil j a)⟩)

/-- The point above one comes before it. -/
theorem Node.above_mem_earlier {node : Node} {s : Sketch} (hsketch : node.sketch = .ok s)
    {earlier later : List Point} {point : Point}
    (hsplit : s.descendants = earlier ++ point :: later) :
    point.place.dropLast ∈ [] :: earlier.map Point.place := by
  have hpoint : point ∈ s.descendants := by simp [hsplit]
  have hplace : point.place ∈ s.places := List.mem_cons_of_mem _ (List.mem_map_of_mem hpoint)
  have habove : point.place.dropLast ∈ s.places :=
    (mem_places hsketch _).mpr (isSome_at?_dropLast ((mem_places hsketch _).mp hplace))
  have hlt := dropLast_lt (Sketch.place_ne_nil hpoint)
  have hsorted := s.pairwise_descendants
  rw [Sketch.places, hsplit, List.map_append, List.map_cons, ← List.cons_append] at habove
  rcases List.mem_append.mp habove with hearlier | hrest
  · exact hearlier
  rcases List.mem_cons.mp hrest with hsame | hlater
  · rw [hsame] at hlt
    exact absurd hlt (List.lt_irrefl _)
  · obtain ⟨next, hnext, hplace⟩ := List.mem_map.mp hlater
    rw [hsplit, List.pairwise_append, List.pairwise_cons] at hsorted
    have hgt := hsorted.2.1.1 next hnext
    rw [hplace] at hgt
    exact absurd hlt (List.lt_asymm hgt)

theorem eraseDups_append_new [DecidableEq ι] {seen : List ι} {old new : ι} (hold : old ∈ seen)
    (hnew : new ∉ seen) : (seen ++ [old, new, new]).eraseDups = seen.eraseDups ++ [new] := by
  have hadded : [old, new, new].removeAll seen = [new, new] := by
    simp [List.removeAll, hold, hnew]
  rw [List.eraseDups_append, hadded]
  simp [List.eraseDups_cons]

/-- What the statements for points mention first are the points themselves, in order, if the point
    above each one comes before it. -/
theorem Point.eraseDups_stated [DecidableEq ι] {ident : Place → ι} {points : List Point}
    (habove : ∀ earlier point later, points = earlier ++ point :: later →
      point.place.dropLast ∈ [] :: earlier.map Point.place)
    (hids : (([] :: points.map Point.place).map ident).Nodup) :
    (ident [] :: (points.flatMap (stated ident)).flatMap Statement.ids).eraseDups =
      ([] :: points.map Point.place).map ident := by
  -- By induction from the end: the last point adds its own id only.
  induction points using List.reverseRecOn with
  | nil => rfl
  | append_singleton points point ih =>
    let seen := ident [] :: (points.flatMap (stated ident)).flatMap Statement.ids
    have hmentions : ident [] ::
        ((points ++ [point]).flatMap (stated ident)).flatMap Statement.ids =
          seen ++ [ident point.place.dropLast, ident point.place, ident point.place] := by
      simp [seen, stated, Statement.ids]
    have hplaces : ([] :: (points ++ [point]).map Point.place).map ident =
        ([] :: points.map Point.place).map ident ++ [ident point.place] := by
      simp
    rw [hplaces, List.nodup_append] at hids
    have hseen : seen.eraseDups = ([] :: points.map Point.place).map ident := by
      refine ih (fun earlier found later hpoints => ?_) hids.1
      exact habove earlier found (later ++ [point]) (by simp [hpoints])
    have hmem (id : ι) : id ∈ seen ↔ id ∈ ([] :: points.map Point.place).map ident := by
      rw [← hseen, List.mem_eraseDups]
    have hold := (hmem _).mpr (List.mem_map_of_mem (habove points point [] rfl))
    have hnew : ident point.place ∉ seen := fun hmentioned =>
      hids.2.2 _ ((hmem _).mp hmentioned) _ (List.mem_singleton_self _) rfl
    rw [hmentions, hplaces, eraseDups_append_new hold hnew, hseen]

theorem Sketch.numbered_places (ident : Place → ι) (s : Sketch) :
    Numbered (fun k => ident (s.places.getD k [])) 0 (s.places.map ident) := by
  refine List.ext_getElem (by simp) fun j hj hj' => ?_
  rw [List.length_map] at hj
  simp [hj]

theorem Sketch.nodup_places (s : Sketch) : s.places.Nodup :=
  s.pairwise_places.imp fun {a b} (hlt : a < b) (hsame : a = b) => List.lt_irrefl b (hsame ▸ hlt)

theorem Node.labelAt_of_mark {node : Node} {s : Sketch} (hsketch : node.sketch = .ok s)
    {mark : Place × String} (hmark : mark ∈ s.marks) : node.labelAt mark.1 = mark.2 := by
  rw [labelAt, (mem_marks hsketch mark.1 mark.2).mp hmark, Option.getD_some]

theorem Sketch.labels_drawn (ident : Place → ι) (s : Sketch) :
    (s.drawn ident).filterMap Statement.label? =
      s.marks.map fun mark => (ident mark.1, mark.2) := by
  rw [drawn, List.filterMap_cons, Point.labels_stated, marks, List.map_cons, List.map_map]
  rfl

theorem Sketch.filter_places (s : Sketch) :
    s.places.filter (· ≠ []) = s.descendants.map Point.place := by
  rw [places, List.filter_cons_of_neg (by simp), List.filter_eq_self]
  intro a ha
  obtain ⟨point, hpoint, rfl⟩ := List.mem_map.mp ha
  simpa using place_ne_nil hpoint

/-- The statements for the drawing of a node draw the tree below it. -/
theorem Node.drawsTree [DecidableEq ι] {node : Node} {s : Sketch} (hsketch : node.sketch = .ok s)
    {ident : Place → ι}
    (hident : ∀ a b, (node.at? a).isSome → (node.at? b).isSome → ident a = ident b → a = b) :
    DrawsTree node ident s.places (s.drawn ident) := by
  have hnodup : (s.places.map ident).Nodup :=
    s.nodup_places.map_on fun a ha b hb =>
      hident a b ((mem_places hsketch a).mp ha) ((mem_places hsketch b).mp hb)
  have hlabels := s.labels_drawn ident
  have hedges : (s.drawn ident).filterMap Statement.edge? =
      s.descendants.map fun point => (ident point.place.dropLast, ident point.place) :=
    Point.edges_stated ident s.descendants
  have hlabelled : ((s.drawn ident).filterMap Statement.label?).map Prod.fst =
      s.places.map ident := by
    rw [hlabels, ← s.map_fst_marks, List.map_map, List.map_map]
    rfl
  have htargets : ((s.drawn ident).filterMap Statement.edge?).map Prod.snd =
      (s.descendants.map Point.place).map ident := by
    rw [hedges, List.map_map, List.map_map]
    rfl
  constructor
  case preorder => exact s.pairwise_places
  case mem_places => exact mem_places hsketch
  case statements =>
    rw [Sketch.drawn, (sketch_shape hsketch).1, s.filter_places, List.flatMap_map]
    refine congrArg _ (List.flatMap_congr fun point hpoint => ?_)
    have hlabel : node.labelAt point.place = point.label :=
      labelAt_of_mark hsketch (List.mem_cons_of_mem _ (List.mem_map_of_mem hpoint))
    rw [Point.stated, via_of_mem hsketch hpoint, hlabel]
  case labels =>
    rw [hlabels, ← s.map_fst_marks, List.map_map]
    refine List.map_congr_left fun mark hmark => ?_
    rw [Function.comp_apply, labelAt_of_mark hsketch hmark]
  case label_once =>
    intro a ha
    rw [hlabelled]
    exact List.count_eq_one_of_mem hnodup (List.mem_map_of_mem ha)
  case edges =>
    rw [hedges, s.filter_places, List.map_map]
    rfl
  case length_edges => simp [hedges, Sketch.places]
  case edge_once =>
    intro a ha
    rw [htargets]
    rw [Sketch.places, List.map_cons, List.nodup_cons] at hnodup
    split
    · rename_i hroot
      rw [hroot]
      exact List.count_eq_zero_of_not_mem hnodup.1
    · rename_i hroot
      exact List.count_eq_one_of_mem hnodup.2
        (List.mem_map_of_mem (List.mem_of_ne_of_mem hroot ha))
  case edge_between =>
    intro before source target via after hsplit
    cases before with
    | nil => simp [Sketch.drawn] at hsplit
    | cons first before =>
      rw [Sketch.drawn, List.cons_append, List.cons.injEq] at hsplit
      obtain ⟨rfl, hsplit⟩ := hsplit
      obtain ⟨earlier, point, later, hpoints, rfl, rfl, rfl⟩ := Point.split_stated hsplit
      have habove := List.mem_map_of_mem (f := ident) (above_mem_earlier hsketch hpoints)
      constructor
      · rw [List.filterMap_cons, Point.labels_stated]
        simpa [Statement.label?] using habove
      · simp [Statement.label?]
  case first_mention =>
    intro k a ha
    obtain ⟨hk, rfl⟩ := List.getElem?_eq_some_iff.mp ha
    have hmentions : ((s.drawn ident).flatMap Statement.ids).eraseDups = s.places.map ident :=
      Point.eraseDups_stated (fun _ _ _ => above_mem_earlier hsketch) hnodup
    have hindex := hnodup.idxOf_getElem k (by rwa [List.length_map])
    rwa [hmentions, ← List.getElem_map ident]

/-- How a statement is written in the notation for graphs, with the names of the points. -/
inductive StatementText (name : ι → String) : Statement ι → String → Prop
  | point (id : ι) (label : String) :
    StatementText name (.point id label) (name id ++ " [label = \"" ++ label ++ "\"]")
  | branch (source target : ι) :
    StatementText name (.branch source target none) (name source ++ " -> " ++ name target)
  | labelled (source target : ι) (label : String) :
    StatementText name (.branch source target (some label))
      (name source ++ " -> " ++ name target ++ " [label = \"" ++ label ++ "\"]")

theorem statementText_toString (name : ι → String) (s : Statement ι) :
    StatementText name s (s.toString name) := by
  cases s with
  | point id label => exact .point id label
  | branch source target label =>
    cases label with
    | none => exact .branch source target
    | some label => exact .labelled source target label

/-- The graph of a program draws the tree of its nodes, if their ids are distinct. The point with a
    number is the node at the place with that number in pre-order, and its id is written for it.
    There is a line for each statement between the lines that open and close the graph. -/
theorem Program.graph_draws_tree [DecidableEq ι] (p : Program) (ident : Place → ι)
    (name : ι → String)
    (hident : ∀ a b, ((Node.program p).at? a).isSome → ((Node.program p).at? b).isSome →
      ident a = ident b → a = b) :
    ∃ sketch places drawn texts, (Node.program p).sketch = .ok sketch ∧
      sketch.graph (fun k => name (ident (places.getD k []))) =
        "digraph ast \x7b\n" ++ String.join (texts.map (· ++ "\n")) ++ "\x7d\n" ∧
      List.Forall₂ (StatementText name) drawn texts ∧
      DrawsTree (.program p) ident places drawn := by
  let sketch := Sketch.over Form.program.name [sketchDefinitions p.definitions]
  have hsketch : (Node.program p).sketch = .ok sketch := rfl
  refine ⟨sketch, sketch.places, sketch.drawn ident, (sketch.drawn ident).map (·.toString name),
    hsketch, ?_, ?_, Node.drawsTree hsketch hident⟩
  · rw [Sketch.graph, ← (sketch.statements_eq_drawn (sketch.numbered_places ident)).1,
      List.map_map, List.map_map]
    simp only [Function.comp_def, Statement.toString_map]
    rfl
  · rw [List.forall₂_map_right_iff, List.forall₂_same]
    exact fun s _ => statementText_toString name s

/-- Places can be numbered, so there are ids for the nodes of a program with a call. -/
theorem Program.graph_draws_tree_call : ∃ p,
    parse "function f(x:integer):integer print(x) f(-x)" = .ok p ∧
    ∃ sketch places drawn texts, (Node.program p).sketch = .ok sketch ∧
      sketch.graph (fun k => toString (Encodable.encode (places.getD k []))) =
        "digraph ast \x7b\n" ++ String.join (texts.map (· ++ "\n")) ++ "\x7d\n" ∧
      List.Forall₂ (StatementText toString) drawn texts ∧
      DrawsTree (.program p) (Encodable.encode : Place → Nat) places drawn := by
  have hparsed : ∃ p, parse "function f(x:integer):integer print(x) f(-x)" = .ok p ∧
      p.definitions.length = 1 := by
    apply Analysis.exists_ok_of_any
    decide +kernel
  obtain ⟨p, hparse, -⟩ := hparsed
  exact ⟨p, hparse, p.graph_draws_tree Encodable.encode toString
    fun a b _ _ hsame => Encodable.encode_injective hsame⟩

end Klein
