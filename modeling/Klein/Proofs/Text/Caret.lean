import Klein.Fault
import Klein.Proofs.Text.Filling
import Mathlib.Data.List.Basic

namespace Klein

open Text

namespace Text

theorem linesFrom_of_not_isLineEnd {current text : List Char} (hne : current ≠ [] ∨ text ≠ [])
    (hends : ∀ c ∈ text, isLineEnd c = false) :
    linesFrom current text = [current.reverse ++ text] := by
  fun_induction linesFrom current text with
  | case1 current hempty => simp_all
  | case2 current hempty => simp
  | case3 current cs ih => cases hends '\r' (by simp)
  | case4 current c cs hnot hend ih => simp [hends c (by simp)] at hend
  | case5 current c cs hnot hend ih =>
    simpa using ih (by simp) fun d hd => hends d (by simp [hd])

theorem expandTabsFrom_of_not_mem {column : Nat} {text : List Char} (htab : '\t' ∉ text) :
    expandTabsFrom column text = text := by
  induction text generalizing column with
  | nil => rfl
  | cons c text ih =>
    have hc : c ≠ '\t' := fun h => htab (by simp [h])
    rw [expandTabsFrom, if_neg hc, ih fun hmem => htab (by simp [hmem])]

/-- Chunks that fit on a line are all put there. -/
theorem fillLines_of_le {width used : Nat} {finished : Bool} {current chunks : List (List Char)}
    (hshort : used + chunks.flatten.length ≤ width) :
    fillLines width finished current used chunks = closeLine (chunks.reverse ++ current) := by
  fun_induction fillLines width finished current used chunks with
  | case1 => rfl
  | case2 finished current used chunk rest hempty ih =>
    rw [List.flatten_cons, List.length_append] at hshort
    rw [ih (by omega), List.isEmpty_iff.mp hempty]
    simp
  | case3 finished current used chunk rest hempty hwide ih =>
    rw [List.flatten_cons, List.length_append] at hshort
    rw [ih (by omega)]
    simp
  | case4 finished current used chunk rest hempty hwide =>
    rw [List.flatten_cons, List.length_append] at hshort
    omega

theorem wrapLine_of_le {width : Nat} {line : List Char} {last : Char} (htab : '\t' ∉ line)
    (hlast : line.getLast? = some last) (hsolid : isBlank last = false)
    (hshort : line.length ≤ width) : wrapLine width line = [line] := by
  have hchunks := flatten_chunks line
  rw [wrapLine, expandTabsFrom_of_not_mem htab, fillLines_of_le (by rw [hchunks]; omega),
    List.append_nil]
  cases hreverse : (chunks line).reverse with
  | nil =>
    rw [← hchunks, List.reverse_eq_nil_iff.mp hreverse] at hlast
    cases hlast
  | cons chunk before =>
    rw [List.reverse_eq_cons_iff] at hreverse
    have hchunk : chunk ∈ chunks line := by simp [hreverse]
    have hend : chunk.getLast? = some last := by
      rw [← hlast, ← hchunks, hreverse, List.flatten_append, List.flatten_singleton]
      exact (List.getLast?_append_of_ne_nil _ (uniform_of_mem_chunks hchunk).ne_nil).symm
    have hblank : allBlank chunk = false :=
      List.all_eq_false.mpr ⟨last, List.mem_of_getLast? hend, by simp [hsolid]⟩
    rw [closeLine_of_not_allBlank hblank, List.reverse_cons, ← hreverse, hchunks]

/-- A line without tabs and line ends is not changed if it ends in a solid character and is short
    enough. -/
theorem wrap_of_le {width : Int} {line : String} {last : Char}
    (hends : ∀ c ∈ line.toList, isLineEnd c = false) (htab : '\t' ∉ line.toList)
    (hlast : line.toList.getLast? = some last) (hsolid : isBlank last = false)
    (hshort : line.length ≤ width) : wrap width line = .ok line := by
  have hmem := List.mem_of_getLast? hlast
  have hlines : lines line.toList = [line.toList] :=
    linesFrom_of_not_isLineEnd (.inr (List.ne_nil_of_mem hmem)) hends
  have hblank : allBlank line.toList = false := List.all_eq_false.mpr ⟨last, hmem, by simp [hsolid]⟩
  have hpositive : 0 < line.length := by
    rw [← String.length_toList]
    exact List.length_pos_of_mem hmem
  have hwrap : wrapLine width.toNat line.toList = [line.toList] :=
    wrapLine_of_le htab hlast hsolid (by rw [String.length_toList]; omega)
  rw [wrap, if_neg (by omega), wrapLines, hlines]
  simp [hblank, hwrap]

end Text

theorem toList_toString (n : Nat) : (toString (n : Int)).toList = Nat.toDigits 10 n :=
  Nat.toList_repr

/-- A number has one digit if and only if it is less than ten. -/
theorem length_toString_eq_one_iff {k : Int} (hk : 0 ≤ k) :
    (toString k).length = 1 ↔ k < 10 := by
  obtain ⟨n, rfl⟩ := Int.eq_ofNat_of_zero_le hk
  have hle := @Nat.length_toDigits_le_iff 10 n 1 (by decide) (by decide)
  have hpos := @Nat.length_toDigits_pos 10 n
  rw [← String.length_toList, toList_toString]
  omega

theorem newline_not_mem_toString {k : Int} (hk : 0 ≤ k) : '\n' ∉ (toString k).toList := by
  obtain ⟨n, rfl⟩ := Int.eq_ofNat_of_zero_le hk
  rw [toList_toString]
  intro hmem
  cases Nat.isDigit_of_mem_toDigits (by decide) (by decide) hmem

variable {line : String} {position : Position} {last : Char}

/-- A line that is short enough is shown behind its number. The caret stands below it, with one
    blank more before it than the column says. -/
theorem excerpt_of_le (hends : ∀ c ∈ line.toList, isLineEnd c = false) (htab : '\t' ∉ line.toList)
    (hlast : line.toList.getLast? = some last) (hsolid : isBlank last = false)
    (hshort : line.length ≤ (messageWidth : Int) - ((toString position.line).length + 1 : Nat))
    (hcolumn : position.column ≤ line.length) :
    excerpt line position = .ok (join "\n" [toString position.line ++ "|" ++ line,
      copies (position.column + 1) " " ++ "^"]) := by
  have hfeed : '\n' ∉ line.toList := fun hmem => by cases hends '\n' hmem
  have hsplit : split '\n' line = [line] := by
    have hone := @split_join "\n" '\n' rfl [line] (by simp) (by simpa using hfeed)
    rwa [join_one] at hone
  have hcaret : caretColumn position.column [toString position.line ++ "|" ++ line] =
      position.column := by
    refine if_neg ?_
    have hbar : "|".length = 1 := rfl
    rw [String.length_append, String.length_append, hbar]
    omega
  have hwrap := wrap_of_le hends htab hlast hsolid hshort
  simp only [excerpt, hwrap, hsplit, bind, Except.bind, pure, Except.pure, List.mapIdx_cons,
    List.mapIdx_nil, if_true, hcaret, List.singleton_append]

theorem toNat_of_printable {c : Char} (hc : ' ' ≤ c ∧ c ≤ '~') : 32 ≤ c.toNat ∧ c.toNat ≤ 126 := by
  simpa [Char.le_def, UInt32.le_iff_toNat_le] using hc

theorem isLineEnd_of_printable {c : Char} (hc : ' ' ≤ c ∧ c ≤ '~') : isLineEnd c = false := by
  have hrange := toNat_of_printable hc
  simp only [isLineEnd, List.contains_eq_mem, decide_eq_false_iff_not, List.mem_cons,
    List.not_mem_nil, or_false]
  omega

theorem isBlank_of_printable {c : Char} (hc : ' ' ≤ c ∧ c ≤ '~') (hspace : c ≠ ' ') :
    isBlank c = false := by
  have hrange := toNat_of_printable hc
  have hne : c.toNat ≠ 32 := fun h => hspace (Char.toNat_inj.mp h)
  simp only [isBlank, inRanges, blankRanges, List.any_cons, List.any_nil, Bool.or_false,
    Bool.or_eq_false_iff, Bool.and_eq_false_iff, decide_eq_false_iff_not]
  omega

theorem excerpt_of_printable (hprintable : ∀ c ∈ line.toList, ' ' ≤ c ∧ c ≤ '~')
    (hend : line.toList.getLast? ≠ some ' ') (hne : line.toList ≠ [])
    (hshort : (line.length : Int) ≤ 80 - ((toString position.line).length + 1))
    (hcolumn : position.column ≤ line.length) :
    excerpt line position = .ok (join "\n" [toString position.line ++ "|" ++ line,
      copies (position.column + 1) " " ++ "^"]) := by
  obtain ⟨last, hlast⟩ : ∃ last, line.toList.getLast? = some last :=
    Option.isSome_iff_exists.mp (by simpa using hne)
  have hends : ∀ c ∈ line.toList, isLineEnd c = false :=
    fun c hc => isLineEnd_of_printable (hprintable c hc)
  have htab : '\t' ∉ line.toList := fun hmem => absurd (hprintable _ hmem) (by decide)
  have hsolid : isBlank last = false :=
    isBlank_of_printable (hprintable last (List.mem_of_getLast? hlast)) fun h => hend (h ▸ hlast)
  refine excerpt_of_le hends htab hlast hsolid ?_ hcolumn
  change _ ≤ (80 : Int) - _
  omega

theorem toList_caret (count : Int) :
    (copies count " " ++ "^").toList = List.replicate count.toNat ' ' ++ ['^'] := by
  have hblanks : ∀ n, (List.replicate n " ").flatMap String.toList = List.replicate n ' ' := by
    intro n
    induction n with
    | zero => rfl
    | succ n ih =>
      rw [List.replicate_succ, List.flatMap_cons, ih]
      rfl
  rw [String.toList_append, copies, String.toList_join, hblanks]
  rfl

/-- A printable line that is short enough is shown on one line behind its number, and a line with
    the caret follows, one column further than the column says. The caret is below the character of
    that column if and only if the number of the line has one digit. -/
theorem caret_below_iff (hnumber : 1 ≤ position.line)
    (hprintable : ∀ c ∈ line.toList, ' ' ≤ c ∧ c ≤ '~') (hend : line.toList.getLast? ≠ some ' ')
    (hblank : ∃ c ∈ line.toList, c ≠ ' ')
    (hshort : (line.length : Int) ≤ 80 - ((toString position.line).length + 1))
    (hfirst : 1 ≤ position.column) (hlast : position.column ≤ line.length) :
    ∃ shown marked caret, excerpt line position = .ok shown ∧ split '\n' shown = [marked, caret] ∧
      marked = toString position.line ++ "|" ++ line ∧
      caret = copies (position.column + 1) " " ++ "^" ∧
      (caret.toList.idxOf '^' = (toString position.line ++ "|").length + (position.column - 1) ↔
        position.line ≤ 9) := by
  obtain ⟨c, hc, -⟩ := hblank
  have hexcerpt := excerpt_of_printable hprintable hend (List.ne_nil_of_mem hc) hshort hlast
  refine ⟨_, _, _, hexcerpt, split_join rfl (by simp) ?_, rfl, rfl, ?_⟩
  · have hdigits := newline_not_mem_toString (show 0 ≤ position.line by omega)
    have hline : '\n' ∉ line.toList := fun hmem => absurd (hprintable _ hmem) (by decide)
    rw [List.forall_mem_cons, List.forall_mem_singleton, toList_caret]
    refine ⟨?_, by simp⟩
    simp only [String.toList_append, List.mem_append]
    exact fun h => h.elim (fun h => h.elim hdigits (by simp)) hline
  · have hdigits := length_toString_eq_one_iff (show 0 ≤ position.line by omega)
    have hcaret : ['^'].idxOf '^' = 0 := rfl
    have hbar : "|".length = 1 := rfl
    rw [toList_caret, List.idxOf_append, if_neg (by simp), hcaret, List.length_replicate,
      String.length_append, hbar]
    omega

/-- On the ninth line the caret is below the character, behind the blanks with which the line
    starts. -/
theorem caret_below_iff_ninth :
    ∃ shown marked caret, excerpt "  x+ y" { line := 9, column := 4 } = .ok shown ∧
      split '\n' shown = [marked, caret] ∧ marked = "9|  x+ y" ∧ marked.toList[5]? = some '+' ∧
      caret.toList.idxOf '^' = 5 := by
  have hall : "  x+ y".toList.all (fun c => ' ' ≤ c ∧ c ≤ '~') = true := by decide
  have hprintable : ∀ c ∈ "  x+ y".toList, ' ' ≤ c ∧ c ≤ '~' :=
    fun c hc => of_decide_eq_true (List.all_eq_true.mp hall c hc)
  obtain ⟨shown, marked, caret, hshown, hsplit, rfl, -, hcaret⟩ :=
    @caret_below_iff "  x+ y" { line := 9, column := 4 } (by decide) hprintable (by decide)
      ⟨'x', by decide, by decide⟩ (by decide) (by decide) (by decide)
  refine ⟨shown, _, caret, hshown, hsplit, rfl, rfl, ?_⟩
  have hcolumn := hcaret.mpr (by decide)
  exact Int.ofNat_inj.mp hcolumn

/-- On the tenth line the caret is below the character in front of the one that is meant. -/
theorem not_caret_below_tenth :
    (excerpt "ab" { line := 10, column := 1 }).toOption = some "10|ab\n  ^" ∧
      split '\n' "10|ab\n  ^" = ["10|ab", "  ^"] ∧ "10|ab".toList[3]? = some 'a' ∧
      "  ^".toList.idxOf '^' ≠ 3 := by
  decide +kernel

end Klein
