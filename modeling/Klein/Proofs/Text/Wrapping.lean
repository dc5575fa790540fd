import Klein.Text.Wrap

namespace Klein.Text

variable {P : Char → Prop}

theorem forall_linesFrom {current text : List Char} (hcurrent : ∀ c ∈ current, P c)
    (htext : ∀ c ∈ text, P c) : ∀ line ∈ linesFrom current text, ∀ c ∈ line, P c := by
  fun_induction linesFrom current text with
  | case1 | case2 => grind
  | case3 current cs ih => grind
  | case4 current c cs hnot hend ih => grind
  | case5 current c cs hnot hend ih => exact ih (by grind) (by grind)

theorem forall_expandTabsFrom {column : Nat} {text : List Char} (hblank : P ' ')
    (htext : ∀ c ∈ text, P c) : ∀ c ∈ expandTabsFrom column text, P c := by
  induction text generalizing column with
  | nil => exact htext
  | cons c text ih =>
    have hrest : ∀ column, ∀ d ∈ expandTabsFrom column text, P d :=
      fun _ => ih fun d hd => htext d (by simp [hd])
    rw [expandTabsFrom]
    split
    · rw [List.forall_mem_append]
      exact ⟨fun d hd => List.eq_of_mem_replicate hd ▸ hblank, hrest _⟩
    · exact List.forall_mem_cons.mpr ⟨htext c (by simp), hrest _⟩

theorem forall_chunksFrom {kind : Option ChunkKind} {before current text : List Char}
    (hcurrent : ∀ c ∈ current, P c) (htext : ∀ c ∈ text, P c) :
    ∀ chunk ∈ chunksFrom kind before current text, ∀ c ∈ chunk, P c := by
  fun_induction chunksFrom kind before current text with
  | _ => grind

theorem forall_closeLine {current : List (List Char)}
    (hcurrent : ∀ chunk ∈ current, ∀ c ∈ chunk, P c) :
    ∀ line ∈ closeLine current, ∀ c ∈ line, P c := by
  intro line hline c hc
  obtain ⟨kept, hkept, rfl⟩ : ∃ kept, kept ⊆ current ∧ line = kept.reverse.flatten := by
    cases current with
    | nil => simp [closeLine] at hline
    | cons last rest =>
      have hsub : (if allBlank last then rest else last :: rest) ⊆ last :: rest := by
        split <;> simp
      refine ⟨_, hsub, ?_⟩
      simp only [closeLine] at hline
      generalize (if allBlank last then rest else last :: rest) = kept at hline ⊢
      split at hline
      · cases hline
      · exact List.mem_singleton.mp hline
  obtain ⟨chunk, hchunk, hmem⟩ := List.mem_flatten.mp hc
  exact hcurrent chunk (hkept (List.mem_reverse.mp hchunk)) c hmem

theorem forall_fillLines {width used : Nat} {finished : Bool} {current chunks : List (List Char)}
    (hcurrent : ∀ chunk ∈ current, ∀ c ∈ chunk, P c)
    (hchunks : ∀ chunk ∈ chunks, ∀ c ∈ chunk, P c) :
    ∀ line ∈ fillLines width finished current used chunks, ∀ c ∈ line, P c := by
  fun_induction fillLines width finished current used chunks with
  | case1 => exact forall_closeLine hcurrent
  | case2 => grind
  | case3 => grind
  | case4 finished current used chunk rest hempty hwide line finished' ih1 ih2 =>
    rw [List.forall_mem_append]
    refine ⟨forall_closeLine hcurrent, ?_⟩
    split
    · grind
    · grind

theorem forall_join {separator : String} {parts : List String}
    (hseparator : ∀ c ∈ separator.toList, P c) (hparts : ∀ part ∈ parts, ∀ c ∈ part.toList, P c) :
    ∀ c ∈ (join separator parts).toList, P c := by
  rw [join, String.toList_intercalate]
  induction parts with
  | nil => simp
  | cons part parts ih =>
    cases parts with
    | nil => simpa using hparts part (by simp)
    | cons other parts =>
      rw [List.map_cons, List.map_cons, List.intercalate_cons_cons]
      grind

theorem forall_wrapLine {width : Nat} {line : List Char} (hblank : P ' ') (hline : ∀ c ∈ line, P c) :
    ∀ piece ∈ wrapLine width line, ∀ c ∈ piece, P c :=
  forall_fillLines (by simp) (forall_chunksFrom (by simp) (forall_expandTabsFrom hblank hline))

/-- A property of all characters of a text is one of all characters of the wrapped text, if blanks
    and line feeds have it. -/
theorem forall_wrapMessage {text : String} (hblank : P ' ') (hfeed : P '\n')
    (htext : ∀ c ∈ text.toList, P c) : ∀ c ∈ (wrapMessage text).toList, P c := by
  refine forall_join (by simpa using hfeed) fun part hpart => ?_
  obtain ⟨line, hline, rfl⟩ := List.mem_map.mp hpart
  refine forall_join (by simpa using hfeed) fun piece hpiece => ?_
  obtain ⟨chars, hchars, rfl⟩ := List.mem_map.mp hpiece
  have hchar : ∀ c ∈ line, P c :=
    forall_linesFrom (by simp) htext line (List.mem_filter.mp hline).1
  rw [String.toList_ofList]
  exact forall_wrapLine hblank hchar chars hchars

end Klein.Text
