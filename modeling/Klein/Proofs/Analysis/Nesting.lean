import Mathlib.Data.List.Infix
import Klein.SymbolTable

namespace Klein

/-- What can be done to the scopes of a symbol table. -/
inductive ScopeOperation
  | enter
  | bind (name : String) (symbol : Symbol)
  | exit
deriving Repr

namespace ScopeOperation

/-- How many scopes more are open after an operation than before. -/
def shift : ScopeOperation → Int
  | enter => 1
  | bind _ _ => 0
  | exit => -1

/-- How many scopes more are open after some operations than before. -/
def net : List ScopeOperation → Int
  | [] => 0
  | op :: ops => op.shift + net ops

/-- How many scopes of a new table are open after some operations. -/
def levelAfter (ops : List ScopeOperation) : Int :=
  1 + net ops

/-- Some operations leave no scope that was open before them. -/
def StaysInside (ops : List ScopeOperation) : Prop :=
  ∀ part, part <+: ops → 0 ≤ net part

instance : DecidablePred StaysInside := fun ops =>
  decidable_of_iff (∀ part ∈ ops.inits, 0 ≤ net part) (by simp only [List.mem_inits, StaysInside])

/-- Some operations leave the scopes that they enter, and no others. -/
structure Balanced (ops : List ScopeOperation) : Prop where
  staysInside : StaysInside ops
  settled : net ops = 0

/-- The scope that is the innermost one after some operations was to bind a name. -/
def Asked (ops : List ScopeOperation) (name : String) : Prop :=
  ∃ (before : List ScopeOperation) (symbol : Symbol) (between : List ScopeOperation),
    ops = before ++ .bind name symbol :: between ∧ Balanced between

variable {ops more : List ScopeOperation} {op : ScopeOperation}

@[simp]
theorem shift_enter : enter.shift = 1 := rfl

@[simp]
theorem shift_bind (name : String) (symbol : Symbol) : (bind name symbol).shift = 0 := rfl

@[simp]
theorem shift_exit : exit.shift = -1 := rfl

@[simp]
theorem net_nil : net [] = 0 := rfl

@[simp]
theorem net_cons (op : ScopeOperation) (ops : List ScopeOperation) :
    net (op :: ops) = op.shift + net ops := rfl

@[simp]
theorem net_append (ops more : List ScopeOperation) : net (ops ++ more) = net ops + net more := by
  induction ops with
  | nil => simp
  | cons op ops ih => rw [List.cons_append, net_cons, net_cons, ih, Int.add_assoc]

theorem levelAfter_concat (ops : List ScopeOperation) (op : ScopeOperation) :
    levelAfter (ops ++ [op]) = levelAfter ops + op.shift := by
  simp [levelAfter, Int.add_assoc]

theorem levelAfter_bind (before after : List ScopeOperation) (name : String) (symbol : Symbol) :
    levelAfter (before ++ .bind name symbol :: after) = levelAfter before + net after := by
  simp [levelAfter, Int.add_assoc]

theorem StaysInside.of_append (h : StaysInside (ops ++ more)) : StaysInside ops :=
  fun part hpart => h part (hpart.trans (List.prefix_append ops more))

theorem StaysInside.net_nonneg (h : StaysInside ops) : 0 ≤ net ops :=
  h ops (List.prefix_refl ops)

theorem staysInside_nil : StaysInside [] := by
  intro part hpart
  rw [List.prefix_nil.mp hpart]
  exact Int.le_refl 0

theorem staysInside_concat :
    StaysInside (ops ++ [op]) ↔ StaysInside ops ∧ 0 ≤ net ops + op.shift := by
  constructor
  · intro h
    exact ⟨h.of_append, by simpa using h.net_nonneg⟩
  · rintro ⟨hops, hlast⟩ part hpart
    rcases List.prefix_concat_iff.mp hpart with rfl | hpart
    · simpa using hlast
    · exact hops part hpart

theorem StaysInside.append (h : StaysInside ops) (hmore : StaysInside more) :
    StaysInside (ops ++ more) := by
  induction more using List.reverseRecOn with
  | nil => rwa [List.append_nil]
  | append_singleton more op ih =>
    obtain ⟨hmore, hlast⟩ := staysInside_concat.mp hmore
    rw [← List.append_assoc, staysInside_concat, net_append]
    have hnet := h.net_nonneg
    exact ⟨ih hmore, by omega⟩

theorem Balanced.append (h : Balanced ops) (hmore : Balanced more) : Balanced (ops ++ more) :=
  ⟨h.staysInside.append hmore.staysInside, by rw [net_append, h.settled, hmore.settled]; rfl⟩

theorem balanced_bind (name : String) (symbol : Symbol) : Balanced [.bind name symbol] where
  staysInside := by
    rw [← List.nil_append [_], staysInside_concat]
    exact ⟨staysInside_nil, Int.le_refl 0⟩
  settled := rfl

/-- If a scope was to bind a name, it was so a first time. -/
theorem Asked.exists_first {ops : List ScopeOperation} {name : String} (h : Asked ops name) :
    ∃ (before : List ScopeOperation) (symbol : Symbol) (between : List ScopeOperation),
      ops = before ++ .bind name symbol :: between ∧ Balanced between ∧ ¬Asked before name := by
  obtain ⟨before, symbol, between, hops, hbetween⟩ := h
  -- the search goes on in what comes before, which is shorter
  by_cases hbefore : Asked before name
  · obtain ⟨first, other, gap, hfirst, hgap, hnew⟩ := hbefore.exists_first
    refine ⟨first, other, gap ++ ([.bind name symbol] ++ between), by simp [hops, hfirst], ?_, hnew⟩
    exact hgap.append ((balanced_bind name symbol).append hbetween)
  · exact ⟨before, symbol, between, hops, hbetween, hbefore⟩
termination_by ops.length
decreasing_by simp [hops]

end ScopeOperation

open ScopeOperation

/-- A name bound to a symbol, in a scope of some level and after some number of operations. -/
structure Binding where
  place : Nat
  level : Int
  name : String
  symbol : Symbol

namespace Binding

/-- A binding that some operations on a new table have made, as the first one of its name in its
    scope, and whose scope they have not left. -/
def LiveAfter (b : Binding) (ops : List ScopeOperation) : Prop :=
  ∃ before after : List ScopeOperation, ops = before ++ .bind b.name b.symbol :: after ∧
    before.length = b.place ∧ levelAfter before = b.level ∧ ¬Asked before b.name ∧
    StaysInside after

/-- Outer scopes come first, and in a scope what was bound first. -/
def Precedes (a b : Binding) : Prop :=
  a.level < b.level ∨ a.level = b.level ∧ a.place < b.place

variable {a b : Binding} {ops : List ScopeOperation} {op : ScopeOperation} {name : String}

theorem LiveAfter.place_lt (h : b.LiveAfter ops) : b.place < ops.length := by
  obtain ⟨before, after, rfl, hplace, -⟩ := h
  simp only [List.length_append, List.length_cons]
  omega

theorem LiveAfter.level_le (h : b.LiveAfter ops) : b.level ≤ levelAfter ops := by
  obtain ⟨before, after, rfl, -, hlevel, -, hafter⟩ := h
  have hnet := hafter.net_nonneg
  rw [levelAfter_bind]
  omega

/-- One more operation ends the bindings of a scope that it leaves, and makes a binding if it is
    the first in its scope that is to bind the name. -/
theorem liveAfter_concat :
    b.LiveAfter (ops ++ [op]) ↔ b.LiveAfter ops ∧ b.level ≤ levelAfter (ops ++ [op]) ∨
      op = .bind b.name b.symbol ∧ b.place = ops.length ∧ b.level = levelAfter ops ∧
        ¬Asked ops b.name := by
  constructor
  · rintro ⟨before, after, hops, hplace, hlevel, hnew, hafter⟩
    rcases List.eq_nil_or_concat' after with rfl | ⟨after, last, rfl⟩
    · obtain ⟨rfl, hop⟩ := List.append_inj' hops rfl
      exact .inr ⟨List.singleton_inj.mp hop, hplace.symm, hlevel.symm, hnew⟩
    · rw [← List.cons_append, ← List.append_assoc] at hops
      obtain ⟨rfl, hop⟩ := List.append_inj' hops rfl
      cases List.singleton_inj.mp hop
      obtain ⟨hafter, hlast⟩ := staysInside_concat.mp hafter
      refine .inl ⟨⟨before, after, rfl, hplace, hlevel, hnew, hafter⟩, ?_⟩
      rw [levelAfter_concat, levelAfter_bind]
      omega
  · rintro (⟨⟨before, after, rfl, hplace, hlevel, hnew, hafter⟩, hle⟩ |
      ⟨rfl, hplace, hlevel, hnew⟩)
    · refine ⟨before, after ++ [op], by simp, hplace, hlevel, hnew,
        staysInside_concat.mpr ⟨hafter, ?_⟩⟩
      rw [levelAfter_concat, levelAfter_bind] at hle
      omega
    · exact ⟨ops, [], rfl, hplace.symm, hlevel.symm, hnew, staysInside_nil⟩

theorem liveAfter_enter : b.LiveAfter (ops ++ [.enter]) ↔ b.LiveAfter ops := by
  rw [liveAfter_concat, levelAfter_concat, shift_enter]
  constructor
  · rintro (⟨hlive, -⟩ | ⟨hop, -⟩)
    · exact hlive
    · cases hop
  · intro hlive
    have hle := hlive.level_le
    exact .inl ⟨hlive, by omega⟩

theorem liveAfter_bind {symbol : Symbol} :
    b.LiveAfter (ops ++ [.bind name symbol]) ↔ b.LiveAfter ops ∨
      ¬Asked ops name ∧ b = ⟨ops.length, levelAfter ops, name, symbol⟩ := by
  rw [liveAfter_concat, levelAfter_concat, shift_bind, Int.add_zero]
  constructor
  · rintro (⟨hlive, -⟩ | ⟨hop, hplace, hlevel, hnew⟩)
    · exact .inl hlive
    · obtain ⟨place, level, name, symbol⟩ := b
      cases hop
      exact .inr ⟨hnew, congrArg₂ (Binding.mk · · name symbol) hplace hlevel⟩
  · rintro (hlive | ⟨hnew, rfl⟩)
    · exact .inl ⟨hlive, hlive.level_le⟩
    · exact .inr ⟨rfl, rfl, rfl, hnew⟩

theorem liveAfter_exit :
    b.LiveAfter (ops ++ [.exit]) ↔ b.LiveAfter ops ∧ b.level < levelAfter ops := by
  rw [liveAfter_concat, levelAfter_concat, shift_exit]
  constructor
  · rintro (⟨hlive, hle⟩ | ⟨hop, -⟩)
    · exact ⟨hlive, by omega⟩
    · cases hop
  · rintro ⟨hlive, hlt⟩
    exact .inl ⟨hlive, by omega⟩

/-- Between two live bindings the scope of the earlier one is not left. -/
theorem LiveAfter.exists_between (ha : a.LiveAfter ops) (hb : b.LiveAfter ops)
    (hplace : a.place < b.place) :
    ∃ before between : List ScopeOperation, StaysInside between ∧
      b.level = a.level + net between ∧
      ¬Asked (before ++ .bind a.name a.symbol :: between) b.name := by
  obtain ⟨before, after, rfl, hbefore, hlevel, -, hafter⟩ := ha
  obtain ⟨before', after', hops, hbefore', hlevel', hnew, -⟩ := hb
  -- the earlier binding stands in what comes before the later one
  obtain ⟨rest, rfl, hrest⟩ | ⟨rest, rfl, -⟩ := List.append_eq_append_iff.mp hops
  · cases rest with
    | nil => simp at hbefore'; omega
    | cons first between =>
      obtain ⟨rfl, rfl⟩ := List.cons.inj hrest
      refine ⟨before, between, hafter.of_append, ?_, hnew⟩
      rw [← hlevel', levelAfter_bind, hlevel]
  · simp only [List.length_append] at hbefore
    omega

/-- Bindings that are live have been made in the order of their levels. -/
theorem LiveAfter.precedes (ha : a.LiveAfter ops) (hb : b.LiveAfter ops)
    (hplace : a.place < b.place) : a.Precedes b := by
  obtain ⟨before, between, hbetween, hlevel, -⟩ := ha.exists_between hb hplace
  have hnet := hbetween.net_nonneg
  unfold Precedes
  omega

theorem LiveAfter.place_le (ha : a.LiveAfter ops) (hb : b.LiveAfter ops)
    (hlevel : a.level = b.level) (hname : a.name = b.name) : b.place ≤ a.place := by
  by_contra hplace
  obtain ⟨before, between, hbetween, hnet, hnew⟩ := ha.exists_between hb (by omega)
  exact hnew ⟨before, a.symbol, between, by rw [hname], hbetween, by omega⟩

/-- A live scope binds a name once. -/
theorem LiveAfter.symbol_unique (ha : a.LiveAfter ops) (hb : b.LiveAfter ops)
    (hlevel : a.level = b.level) (hname : a.name = b.name) : a.symbol = b.symbol := by
  have hplace := Nat.le_antisymm (hb.place_le ha hlevel.symm hname.symm) (ha.place_le hb hlevel hname)
  obtain ⟨before, after, rfl, hbefore, -⟩ := ha
  obtain ⟨before', after', hops, hbefore', -⟩ := hb
  obtain ⟨-, hrest⟩ := List.append_inj hops (by omega)
  exact (ScopeOperation.bind.inj (List.cons.inj hrest).1).2

/-- The innermost scope was to bind a name just if a live binding of it stands there. -/
theorem asked_iff_exists_liveAfter :
    Asked ops name ↔ ∃ b : Binding, b.LiveAfter ops ∧ b.level = levelAfter ops ∧ b.name = name := by
  constructor
  · intro hasked
    obtain ⟨before, symbol, between, rfl, hbetween, hnew⟩ := hasked.exists_first
    refine ⟨⟨before.length, levelAfter before, name, symbol⟩,
      ⟨before, between, rfl, rfl, rfl, hnew, hbetween.staysInside⟩, ?_, rfl⟩
    rw [levelAfter_bind, hbetween.settled, Int.add_zero]
  · rintro ⟨b, ⟨before, after, rfl, -, hlevel, -, hafter⟩, hinnermost, rfl⟩
    refine ⟨before, b.symbol, after, rfl, hafter, ?_⟩
    rw [levelAfter_bind] at hinnermost
    omega

end Binding

end Klein
