import Klein.Proofs.Scanner.Spelling
import Klein.Proofs.Text.Wrapping
import Klein.Tree.Outline

namespace Klein

/-- What two elements share whenever a function takes them to the same, two lists share whenever it
    takes them to the same. -/
theorem map_eq_of_map_eq {α β γ : Type} {f : α → β} {g : α → γ} {items others : List α}
    (hsame : ∀ a ∈ items, ∀ b ∈ others, f a = f b → g a = g b)
    (h : items.map f = others.map f) : items.map g = others.map g := by
  induction items generalizing others with
  | nil =>
    cases others with
    | nil => rfl
    | cons => cases h
  | cons a items ih =>
    cases others with
    | nil => cases h
    | cons b others =>
      injection h with hfirst hrest
      rw [List.map_cons, List.map_cons, hsame a (by simp) b (by simp) hfirst,
        ih (fun a ha b hb => hsame a (by simp [ha]) b (by simp [hb])) hrest]

namespace Text

/-- Parts without the separator can be found in what they are joined to. -/
theorem join_inj {separator : String} {c : Char} (hseparator : separator.toList = [c])
    {parts others : List String} (hparts : ∀ part ∈ parts, c ∉ part.toList)
    (hothers : ∀ part ∈ others, c ∉ part.toList) (hne : parts ≠ []) (hne' : others ≠ [])
    (h : join separator parts = join separator others) : parts = others := by
  have hsplit := congrArg (fun text => text.toList.splitOn c) h
  simp only [join, String.toList_intercalate, hseparator] at hsplit
  rw [List.splitOn_intercalate c (by simpa using hparts) (by simpa using hne),
    List.splitOn_intercalate c (by simpa using hothers) (by simpa using hne')] at hsplit
  exact (List.map_inj_right fun _ _ => String.toList_inj.mp).mp hsplit

/-- Several blanks before some words are joined like empty words. -/
theorem copies_append_join (level : Nat) {words : List String} (hwords : words ≠ []) :
    copies level "  " ++ join " " words = join " " (List.replicate (2 * level) "" ++ words) := by
  induction level with
  | zero => simp [copies]
  | succ level ih =>
    have hcopies : copies (level + 1 : Nat) "  " = "  " ++ copies level "  " := by
      simp [copies, List.replicate_succ]
    have hne : List.replicate (2 * level) "" ++ words ≠ [] := by simp [hwords]
    rw [hcopies, String.append_assoc, ih, Nat.mul_succ, List.replicate_succ, List.replicate_succ,
      List.cons_append, List.cons_append, join, join, String.intercalate_cons_cons,
      String.intercalate_cons_of_ne_nil hne]
    simp only [String.empty_append, ← String.append_assoc]
    rfl

theorem replicate_append_inj {count other : Nat} {words others : List String}
    (hwords : "" ∉ words) (hothers : "" ∉ others)
    (h : List.replicate count "" ++ words = List.replicate other "" ++ others) :
    count = other ∧ words = others := by
  have hcount := congrArg (List.count "") h
  simp only [List.count_append, List.count_replicate_self, List.count_eq_zero.mpr hwords,
    List.count_eq_zero.mpr hothers, Nat.add_zero] at hcount
  subst hcount
  exact ⟨rfl, List.append_cancel_left h⟩

end Text

open Text

/-- Entries in order: the words of the first one, the entries below it, and those beside it. -/
inductive Forest
  | nil
  | cons (words : List String) (below beside : Forest)

namespace Forest

def ofList : List (List String × Forest) → Forest
  | [] => nil
  | (words, below) :: rest => cons words below (ofList rest)

/-- Entries with a heading over them, unless there are none. -/
def headed (words : List String) : Forest → Forest
  | nil => nil
  | entries => cons words entries nil

theorem ofList_inj {entries others : List (List String × Forest)}
    (h : ofList entries = ofList others) : entries = others := by
  induction entries generalizing others with
  | nil =>
    cases others with
    | nil => rfl
    | cons => cases h
  | cons entry entries ih =>
    cases others with
    | nil => cases h
    | cons other others =>
      injection h with hwords hbelow hrest
      rw [ih hrest, Prod.ext hwords hbelow]

theorem headed_inj {words : List String} {entries others : Forest}
    (h : headed words entries = headed words others) : entries = others := by
  cases entries <;> cases others <;> simp_all [headed]

/-- The words of each entry with its level, in the order in which they are written. -/
def rows (level : Nat) : Forest → List (Nat × List String)
  | nil => []
  | cons words below beside => (level, words) :: below.rows (level + 1) ++ beside.rows level

/-- Rows behind the entries of a level: there are none, or the first one is less deep. -/
def Behind (level : Nat) (rows : List (Nat × List String)) : Prop :=
  ∀ row ∈ rows.head?, row.1 < level

theorem Behind.rows_append {level : Nat} {after : List (Nat × List String)}
    (h : Behind level after) (f : Forest) : Behind (level + 1) (f.rows level ++ after) := by
  intro row hrow
  cases f with
  | nil => exact Nat.lt_succ_of_lt (h row hrow)
  | cons words below beside =>
    cases hrow
    exact Nat.lt_succ_self level

/-- The levels of rows tell which entries stand below which. -/
theorem rows_append_inj {f g : Forest} {level : Nat} {after others : List (Nat × List String)}
    (hafter : Behind level after) (hothers : Behind level others)
    (h : f.rows level ++ after = g.rows level ++ others) : f = g ∧ after = others := by
  induction f generalizing g level after others with
  | nil =>
    cases g with
    | nil => exact ⟨rfl, h⟩
    | cons words below beside =>
      have hrow : (level, words) ∈ after.head? := by
        rw [show after = _ from h]
        rfl
      exact absurd (hafter _ hrow) (Nat.lt_irrefl level)
  | cons words below beside ihbelow ihbeside =>
    cases g with
    | nil =>
      have hrow : (level, words) ∈ others.head? := by
        rw [show others = _ from h.symm]
        rfl
      exact absurd (hothers _ hrow) (Nat.lt_irrefl level)
    | cons words' below' beside' =>
      simp only [rows, List.cons_append, List.append_assoc, List.cons.injEq, Prod.mk.injEq,
        true_and] at h
      obtain ⟨rfl, hrest⟩ := h
      obtain ⟨rfl, hbeside⟩ :=
        ihbelow (hafter.rows_append beside) (hothers.rows_append beside') hrest
      obtain ⟨rfl, hsame⟩ := ihbeside hafter hothers hbeside
      exact ⟨rfl, hsame⟩

theorem rows_inj {f g : Forest} {level : Nat} (h : f.rows level = g.rows level) : f = g := by
  have hnone : Behind level [] := by simp [Behind]
  exact (rows_append_inj hnone hnone (congrArg (· ++ []) h)).1

/-- The lines of some entries, the words of each with a blank between neighbours. -/
def lines (i : Indent) : Forest → List String
  | nil => []
  | cons words below beside =>
    i.line (join " " words) :: below.lines (i.deeper 1) ++ beside.lines i

theorem lines_ofList (i : Indent) (entries : List (List String × Forest)) :
    (ofList entries).lines i =
      entries.flatMap fun entry => i.line (join " " entry.1) :: entry.2.lines (i.deeper 1) := by
  induction entries with
  | nil => rfl
  | cons entry entries ih => simp [ofList, lines, ih]

/-- The line of a row, two blanks for each level. -/
def rowLine (row : Nat × List String) : String :=
  Indent.line { level := row.1 } (join " " row.2)

theorem lines_eq_rows (f : Forest) (level : Nat) :
    f.lines { level := level } = (f.rows level).map rowLine := by
  induction f generalizing level with
  | nil => rfl
  | cons words below beside ihbelow ihbeside =>
    have hdeeper : Indent.deeper { level := level } 1 = { level := (level + 1 : Nat) } := rfl
    rw [lines, hdeeper, ihbelow, ihbeside, rows, List.map_append, List.map_cons]
    rfl

/-- A word that is written with letters, digits and underscores. -/
structure IsPlain (word : String) : Prop where
  ne_empty : word ≠ ""
  chars : word.toList.all isWordChar = true

instance (word : String) : Decidable (IsPlain word) :=
  decidable_of_iff (word ≠ "" ∧ word.toList.all isWordChar = true)
    ⟨fun h => ⟨h.1, h.2⟩, fun h => ⟨h.ne_empty, h.chars⟩⟩

theorem IsPlain.not_mem {word : String} (h : IsPlain word) {c : Char} (hc : isWordChar c = false) :
    c ∉ word.toList := by
  intro hmem
  rw [List.all_eq_true.mp h.chars c hmem] at hc
  cases hc

/-- Plain words, and at least one. -/
structure PlainWords (words : List String) : Prop where
  ne_nil : words ≠ []
  plain : ∀ word ∈ words, IsPlain word

instance (words : List String) : Decidable (PlainWords words) :=
  decidable_of_iff (words ≠ [] ∧ ∀ word ∈ words, IsPlain word)
    ⟨fun h => ⟨h.1, h.2⟩, fun h => ⟨h.ne_nil, h.plain⟩⟩

theorem PlainWords.cons {word : String} {words : List String} (hword : IsPlain word)
    (hwords : ∀ other ∈ words, IsPlain other) : PlainWords (word :: words) :=
  ⟨List.cons_ne_nil _ _, List.forall_mem_cons.mpr ⟨hword, hwords⟩⟩

theorem PlainWords.pair {word other : String} (hword : IsPlain word) (hother : IsPlain other) :
    PlainWords [word, other] :=
  .cons hword (List.forall_mem_singleton.mpr hother)

/-- Entries whose words are plain. -/
def Plain : Forest → Prop
  | nil => True
  | cons words below beside => PlainWords words ∧ below.Plain ∧ beside.Plain

theorem plain_ofList {entries : List (List String × Forest)} :
    (ofList entries).Plain ↔ ∀ entry ∈ entries, PlainWords entry.1 ∧ entry.2.Plain := by
  induction entries with
  | nil => simp [ofList, Plain]
  | cons entry entries ih => simp [ofList, Plain, ih, and_assoc]

theorem plain_headed {words : List String} {entries : Forest} (hwords : PlainWords words)
    (hentries : entries.Plain) : (entries.headed words).Plain := by
  cases entries with
  | nil => trivial
  | cons => exact ⟨hwords, hentries, trivial⟩

theorem Plain.rows {f : Forest} (h : f.Plain) {level : Nat} :
    ∀ row ∈ f.rows level, PlainWords row.2 := by
  induction f generalizing level with
  | nil => simp [Forest.rows]
  | cons words below beside ihbelow ihbeside =>
    obtain ⟨hwords, hbelow, hbeside⟩ := h
    rw [Forest.rows, List.forall_mem_append, List.forall_mem_cons]
    exact ⟨⟨hwords, ihbelow hbelow⟩, ihbeside hbeside⟩

theorem rowLine_eq {row : Nat × List String} (hrow : PlainWords row.2) :
    rowLine row = join " " (List.replicate (2 * row.1) "" ++ row.2) :=
  copies_append_join row.1 hrow.ne_nil

theorem PlainWords.not_mem_indented {words : List String} (h : PlainWords words) (count : Nat)
    {c : Char} (hc : isWordChar c = false) :
    ∀ part ∈ List.replicate count "" ++ words, c ∉ part.toList := by
  rw [List.forall_mem_append]
  refine ⟨fun part hpart => ?_, fun word hword => (h.plain word hword).not_mem hc⟩
  rw [List.eq_of_mem_replicate hpart]
  simp

theorem PlainWords.not_mem_empty {words : List String} (h : PlainWords words) : "" ∉ words :=
  fun hmem => (h.plain "" hmem).ne_empty rfl

/-- A line tells the level and the words of its row. -/
theorem rowLine_inj {row other : Nat × List String} (hrow : PlainWords row.2)
    (hother : PlainWords other.2) (h : rowLine row = rowLine other) : row = other := by
  rw [rowLine_eq hrow, rowLine_eq hother] at h
  have hparts := join_inj rfl (hrow.not_mem_indented _ (by decide))
    (hother.not_mem_indented _ (by decide)) (by simp [hrow.ne_nil]) (by simp [hother.ne_nil]) h
  obtain ⟨hlevel, hwords⟩ :=
    replicate_append_inj hrow.not_mem_empty hother.not_mem_empty hparts
  exact Prod.ext (Nat.eq_of_mul_eq_mul_left Nat.two_pos hlevel) hwords

theorem newline_not_mem_rowLine {row : Nat × List String} (hrow : PlainWords row.2) :
    '\n' ∉ (rowLine row).toList := by
  rw [rowLine_eq hrow]
  intro hmem
  refine forall_join (P := (· ≠ '\n')) (by simp) (fun part hpart c hc => ?_) _ hmem rfl
  rintro rfl
  exact hrow.not_mem_indented _ (by decide) part hpart hc

/-- The text of plain entries tells what they are. -/
theorem text_inj {f g : Forest} (hf : f.Plain) (hg : g.Plain) (hne : f ≠ nil) (hne' : g ≠ nil)
    (h : join "\n" (f.lines {}) = join "\n" (g.lines {})) : f = g := by
  have hlines : ∀ {f : Forest}, f.Plain → ∀ line ∈ (f.rows 0).map rowLine, '\n' ∉ line.toList :=
    fun hplain => List.forall_mem_map.mpr fun row hrow =>
      newline_not_mem_rowLine (hplain.rows row hrow)
  have hrows : ∀ {f : Forest}, f ≠ nil → (f.rows 0).map rowLine ≠ [] := by
    intro f hne
    cases f with
    | nil => exact absurd rfl hne
    | cons => simp [rows]
  have htext : join "\n" ((f.rows 0).map rowLine) = join "\n" ((g.rows 0).map rowLine) := by
    rw [← lines_eq_rows, ← lines_eq_rows]
    exact h
  have hsame := join_inj (by rfl) (hlines hf) (hlines hg) (hrows hne) (hrows hne') htext
  have hids := map_eq_of_map_eq (g := id)
    (fun row hrow other hother => rowLine_inj (hf.rows row hrow) (hg.rows other hother)) hsame
  rw [List.map_id, List.map_id] at hids
  exact rows_inj hids

end Forest

end Klein
