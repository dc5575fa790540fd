import Klein.Proofs.Text.Wrapping

namespace Klein.Text

/-- The characters of a text that are not blank, in order. -/
def solid (text : List Char) : List Char :=
  text.filter fun c => !isBlank c

@[simp]
theorem solid_nil : solid [] = [] := rfl

@[simp]
theorem solid_append (text rest : List Char) : solid (text ++ rest) = solid text ++ solid rest :=
  List.filter_append ..

theorem solid_eq_nil_iff {text : List Char} : solid text = [] ↔ allBlank text = true := by
  simp [solid, allBlank]

theorem solid_cons_of_isBlank {c : Char} (hblank : isBlank c = true) (text : List Char) :
    solid (c :: text) = solid text := by
  simp [solid, hblank]

theorem isBlank_of_isLineEnd {c : Char} (hend : isLineEnd c = true) : isBlank c = true := by
  simp only [isLineEnd, List.contains_eq_mem, List.mem_cons, List.not_mem_nil, or_false,
    decide_eq_true_eq] at hend
  rcases hend with h | h | h | h | h | h | h | h | h | h <;>
    simp [isBlank, inRanges, blankRanges, h]

theorem isBlank_of_isSpacing {c : Char} (hspacing : isSpacing c = true) : isBlank c = true := by
  simp only [isSpacing, Bool.or_eq_true, beq_iff_eq] at hspacing
  rcases hspacing with ((((rfl | rfl) | rfl) | rfl) | rfl) | rfl <;> rfl

theorem solid_linesFrom (current text : List Char) :
    solid (linesFrom current text).flatten = solid (current.reverse ++ text) := by
  fun_induction linesFrom current text with
  | case1 current hempty => simp_all
  | case2 current hempty => simp
  | case3 current cs ih =>
    rw [List.flatten_cons, solid_append, ih, solid_append current.reverse,
      solid_cons_of_isBlank rfl, solid_cons_of_isBlank rfl]
    rfl
  | case4 current c cs hnot hend ih =>
    rw [List.flatten_cons, solid_append, ih, solid_append current.reverse,
      solid_cons_of_isBlank (isBlank_of_isLineEnd hend)]
    rfl
  | case5 current c cs hnot hend ih => simp [ih]

theorem solid_expandTabsFrom (column : Nat) (text : List Char) :
    solid (expandTabsFrom column text) = solid text := by
  induction text generalizing column with
  | nil => rfl
  | cons c text ih =>
    rw [expandTabsFrom]
    split
    · next htab =>
      have hwidth : ∀ width, solid (List.replicate width ' ') = [] := fun width =>
        solid_eq_nil_iff.mpr (List.all_eq_true.mpr fun _ hc => List.eq_of_mem_replicate hc ▸ rfl)
      rw [solid_append, hwidth, ih, htab, solid_cons_of_isBlank rfl]
      rfl
    · rw [← List.singleton_append, solid_append, ih, ← solid_append]
      rfl

theorem flatten_chunksFrom {kind : Option ChunkKind} {current : List Char}
    (before text : List Char) (hnone : kind = none → current = []) :
    (chunksFrom kind before current text).flatten = current.reverse ++ text := by
  fun_induction chunksFrom kind before current text with
  | case1 => simp_all
  | case2 => simp_all
  | case3 before current c cs kind hbreak ih => simp [ih]
  | case4 before current c cs kind hbreak hcontinues ih => simp [ih]
  | case5 before current c cs kind hbreak hcontinues ih => simp [ih]
  | case6 before current c cs ih => simp [ih, hnone]

/-- A chunk of a kind may have a character: those of spacing are spacing, and no others are. -/
def ChunkKind.Admits (kind : ChunkKind) (c : Char) : Prop :=
  isSpacing c = true ↔ kind = .spacing

theorem ChunkKind.starting_admits (before : List Char) (c : Char) (cs : List Char) :
    (starting before (c :: cs)).Admits c := by
  cases hspacing : isSpacing c with
  | true => simp [Admits, starting, hspacing]
  | false =>
    have hstart : starting before (c :: cs) =
        if dashBetween before (c :: cs) then .dash else .word := by
      simp [starting, hspacing]
    rw [hstart]
    split <;> simp [Admits, hspacing]

theorem ChunkKind.admits_of_continues {kind : ChunkKind} {before cs : List Char} {c : Char}
    (h : kind.continues before c cs = true) : kind.Admits c := by
  cases kind with
  | spacing => simpa [Admits, continues] using h
  | dash =>
    obtain rfl : c = '-' := by simpa [continues] using h
    simp [Admits, isSpacing]
  | word =>
    simp only [continues, Bool.and_eq_true, Bool.not_eq_true'] at h
    simp [Admits, h.1]

theorem ChunkKind.admits_of_hyphenBreaks {before cs : List Char} {c : Char}
    (h : hyphenBreaks before (c :: cs) = true) : ChunkKind.word.Admits c := by
  have hc : c = '-' := by
    simp only [hyphenBreaks, Bool.and_eq_true] at h
    obtain ⟨-, h⟩ := h
    split at h <;> simp_all
  simp [Admits, hc, isSpacing]

/-- A chunk is not empty, and it is spacing throughout or has no spacing in it. -/
structure Uniform (chunk : List Char) : Prop where
  ne_nil : chunk ≠ []
  spacing : (∀ c ∈ chunk, isSpacing c = true) ∨ ∀ c ∈ chunk, isSpacing c = false

theorem ChunkKind.uniform_reverse {kind : ChunkKind} {current : List Char} (hne : current ≠ [])
    (hadmits : ∀ c ∈ current, kind.Admits c) : Uniform current.reverse := by
  refine ⟨by simpa using hne, ?_⟩
  by_cases hkind : kind = .spacing
  · exact .inl fun c hc => (hadmits c (List.mem_reverse.mp hc)).mpr hkind
  · refine .inr fun c hc => Bool.eq_false_iff.mpr fun hspacing => hkind ?_
    exact (hadmits c (List.mem_reverse.mp hc)).mp hspacing

theorem uniform_chunksFrom {kind : Option ChunkKind} {before current text : List Char}
    (hkind : ∀ k ∈ kind, current ≠ [] ∧ ∀ c ∈ current, k.Admits c)
    (hnone : kind = none → current = []) :
    ∀ chunk ∈ chunksFrom kind before current text, Uniform chunk := by
  have hone : ∀ before c cs, ∀ k ∈ some (ChunkKind.starting before (c :: cs)),
      [c] ≠ [] ∧ ∀ d ∈ [c], k.Admits d := by
    rintro before c cs k ⟨⟩
    simpa using ChunkKind.starting_admits before c cs
  fun_induction chunksFrom kind before current text with
  | case1 => simp
  | case2 kind before current hempty =>
    cases kind with
    | none => simp [hnone rfl] at hempty
    | some k =>
      obtain ⟨hne, hadmits⟩ := hkind k rfl
      simpa using ChunkKind.uniform_reverse hne hadmits
  | case3 before current c cs kind hbreak ih =>
    obtain ⟨rfl, hbreak⟩ := hbreak
    obtain ⟨-, hadmits⟩ := hkind _ rfl
    have hc := ChunkKind.admits_of_hyphenBreaks hbreak
    have hall := List.forall_mem_cons.mpr ⟨hc, hadmits⟩
    rw [List.forall_mem_cons]
    exact ⟨ChunkKind.uniform_reverse (List.cons_ne_nil _ _) hall, ih (by simp) (by simp)⟩
  | case4 before current c cs kind hbreak hcontinues ih =>
    obtain ⟨-, hadmits⟩ := hkind _ rfl
    refine ih ?_ (by simp)
    rintro k ⟨⟩
    have hc := ChunkKind.admits_of_continues hcontinues
    exact ⟨List.cons_ne_nil _ _, List.forall_mem_cons.mpr ⟨hc, hadmits⟩⟩
  | case5 before current c cs kind hbreak hcontinues ih =>
    obtain ⟨hne, hadmits⟩ := hkind _ rfl
    rw [List.forall_mem_cons]
    exact ⟨ChunkKind.uniform_reverse hne hadmits, ih (hone before c cs) (by simp)⟩
  | case6 before current c cs ih => exact ih (hone before c cs) (by simp)

theorem flatten_chunks (line : List Char) : (chunks line).flatten = line :=
  flatten_chunksFrom [] line fun _ => rfl

theorem uniform_of_mem_chunks {line chunk : List Char} (hchunk : chunk ∈ chunks line) :
    Uniform chunk :=
  uniform_chunksFrom (by simp) (fun _ => rfl) chunk hchunk

theorem closeLine_of_allBlank {last : List Char} (hlast : allBlank last = true)
    (rest : List (List Char)) :
    closeLine (last :: rest) = if rest.isEmpty then [] else [rest.reverse.flatten] := by
  simp [closeLine, hlast]

theorem closeLine_of_not_allBlank {last : List Char} (hlast : allBlank last = false)
    (rest : List (List Char)) : closeLine (last :: rest) = [(last :: rest).reverse.flatten] := by
  simp [closeLine, hlast]

theorem solid_closeLine (current : List (List Char)) :
    solid (closeLine current).flatten = solid current.reverse.flatten := by
  cases current with
  | nil => rfl
  | cons last rest =>
    cases hlast : allBlank last with
    | false => simp [closeLine_of_not_allBlank hlast]
    | true =>
      have hnone : solid last = [] := solid_eq_nil_iff.mpr hlast
      rw [closeLine_of_allBlank hlast]
      cases rest <;> simp [hnone]

theorem solid_fillLines (width used : Nat) (finished : Bool) (current chunks : List (List Char)) :
    solid (fillLines width finished current used chunks).flatten =
      solid (current.reverse.flatten ++ chunks.flatten) := by
  fun_induction fillLines width finished current used chunks with
  | case1 => simp [solid_closeLine]
  | case2 finished current used chunk rest hempty ih => simp_all
  | case3 finished current used chunk rest hempty hwide ih => simp [ih]
  | case4 finished current used chunk rest hempty hwide line finished' ih1 ih2 =>
    have hline : solid line.flatten = solid current.reverse.flatten := solid_closeLine current
    rw [List.flatten_append, solid_append, hline, solid_append, List.flatten_cons, solid_append]
    split
    · next hdrop =>
      have hnone : solid chunk = [] := solid_eq_nil_iff.mpr (Bool.and_eq_true_iff.mp hdrop).2
      simp [ih1, hnone]
    · simp [ih2]

/-- A line of a wrapped text: it is not empty, and beyond the width it has no spacing in it. -/
structure Filled (width : Nat) (line : List Char) : Prop where
  ne_nil : line ≠ []
  unbroken : width < line.length → ∀ c ∈ line, isSpacing c = false

/-- The chunks of a line in the making and the number of their characters. Only a line of one chunk
    may be beyond the width. -/
structure Filling (width : Nat) (current : List (List Char)) (used : Nat) : Prop where
  uniform : ∀ chunk ∈ current, Uniform chunk
  counted : used = current.flatten.length
  within : used ≤ width ∨ current.length ≤ 1

variable {width used : Nat} {finished : Bool} {current rest : List (List Char)} {chunk : List Char}

theorem filling_nil : Filling width [] 0 :=
  ⟨by simp, rfl, .inl (Nat.zero_le _)⟩

theorem filling_one (hchunk : Uniform chunk) : Filling width [chunk] chunk.length :=
  ⟨by simpa using hchunk, by simp, .inr (Nat.le_refl _)⟩

theorem Filling.cons (h : Filling width current used) (hchunk : Uniform chunk)
    (hwide : used + chunk.length ≤ width) :
    Filling width (chunk :: current) (used + chunk.length) where
  uniform := List.forall_mem_cons.mpr ⟨hchunk, h.uniform⟩
  counted := by
    rw [List.flatten_cons, List.length_append, h.counted, Nat.add_comm]
  within := .inl hwide

theorem length_reverse_flatten (chunks : List (List Char)) :
    chunks.reverse.flatten.length = chunks.flatten.length := by
  simp [List.length_flatten]

theorem Uniform.not_isSpacing (h : Uniform chunk) (hsolid : allBlank chunk = false) :
    ∀ c ∈ chunk, isSpacing c = false := by
  refine h.spacing.resolve_left fun hspacing => ?_
  have hblank : allBlank chunk = true :=
    List.all_eq_true.mpr fun c hc => isBlank_of_isSpacing (hspacing c hc)
  rw [hsolid] at hblank
  cases hblank

theorem Filling.reverse_flatten_ne_nil (h : Filling width (chunk :: current) used) :
    (chunk :: current).reverse.flatten ≠ [] := by
  have hchunk := (h.uniform chunk (by simp)).ne_nil
  simp [hchunk]

theorem Filling.filled (h : Filling width current used) :
    ∀ line ∈ closeLine current, Filled width line := by
  cases current with
  | nil => simp [closeLine]
  | cons last rest =>
    have hlength := h.counted.trans (length_reverse_flatten _).symm
    cases hlast : allBlank last with
    | false =>
      rw [closeLine_of_not_allBlank hlast, List.forall_mem_singleton]
      refine ⟨h.reverse_flatten_ne_nil, fun hwide => ?_⟩
      obtain rfl : rest = [] := by
        have hone := h.within.resolve_left (by omega)
        simpa using hone
      simpa using (h.uniform last (by simp)).not_isSpacing hlast
    | true =>
      rw [closeLine_of_allBlank hlast]
      cases rest with
      | nil => simp
      | cons other rest =>
        have hwithin := h.within.resolve_right (by simp)
        have hother := (h.uniform other (by simp)).ne_nil
        rw [List.reverse_cons, List.flatten_append, List.length_append] at hlength
        rw [List.isEmpty_cons, if_neg Bool.false_ne_true, List.forall_mem_singleton]
        exact ⟨by simp [hother], fun hwide => by omega⟩

theorem filled_fillLines {chunks : List (List Char)} (h : Filling width current used)
    (hchunks : ∀ chunk ∈ chunks, Uniform chunk) :
    ∀ line ∈ fillLines width finished current used chunks, Filled width line := by
  fun_induction fillLines width finished current used chunks with
  | case1 => exact h.filled
  | case2 finished current used chunk rest hempty ih =>
    obtain ⟨hchunk, hrest⟩ := List.forall_mem_cons.mp hchunks
    exact ih (filling_one hchunk) hrest
  | case3 finished current used chunk rest hempty hwide ih =>
    obtain ⟨hchunk, hrest⟩ := List.forall_mem_cons.mp hchunks
    exact ih (h.cons hchunk hwide) hrest
  | case4 finished current used chunk rest hempty hwide line finished' ih1 ih2 =>
    obtain ⟨hchunk, hrest⟩ := List.forall_mem_cons.mp hchunks
    rw [List.forall_mem_append]
    refine ⟨h.filled, ?_⟩
    split
    · exact ih1 filling_nil hrest
    · exact ih2 (filling_one hchunk) hrest

theorem solid_wrapLine (width : Nat) (line : List Char) :
    solid (wrapLine width line).flatten = solid line := by
  rw [wrapLine, solid_fillLines, flatten_chunks]
  exact solid_expandTabsFrom 0 line

theorem filled_of_mem_wrapLine {line piece : List Char} (hpiece : piece ∈ wrapLine width line) :
    Filled width piece :=
  filled_fillLines filling_nil (fun _ => uniform_of_mem_chunks) piece hpiece

theorem wrapLine_ne_nil {line : List Char} (hline : allBlank line = false) :
    wrapLine width line ≠ [] := by
  intro hnil
  have hsolid := solid_wrapLine width line
  rw [hnil, List.flatten_nil, solid_nil, eq_comm, solid_eq_nil_iff, hline] at hsolid
  cases hsolid

theorem splitAt_eq_splitOn (separator : Char) (text : List Char) :
    splitAt separator text = text.splitOn separator := by
  induction text with
  | nil => rfl
  | cons c text ih =>
    have hsplit : (c :: text).splitOn separator =
        if c = separator then [] :: text.splitOn separator
        else (text.splitOn separator).modifyHead (c :: ·) := by
      simp [List.splitOn, List.splitOnP_cons_eq_if_modifyHead]
    rw [splitAt, ih, hsplit]
    cases hpieces : text.splitOn separator with
    | nil => exact absurd hpieces (List.splitOn_ne_nil separator text)
    | cons piece pieces => rfl

/-- Parts without the separator are found again in what they are joined to. -/
theorem split_join {separator : String} {c : Char} (hseparator : separator.toList = [c])
    {parts : List String} (hne : parts ≠ []) (hparts : ∀ part ∈ parts, c ∉ part.toList) :
    split c (join separator parts) = parts := by
  rw [split, splitAt_eq_splitOn, join, String.toList_intercalate, hseparator,
    List.splitOn_intercalate c (by simpa using hparts) (by simpa using hne)]
  simp

/-- Parts that are joined list by list are joined as a whole. -/
theorem join_map_join (separator : String) {lists : List (List String)}
    (hne : ∀ parts ∈ lists, parts ≠ []) :
    join separator (lists.map (join separator)) = join separator lists.flatten := by
  induction lists with
  | nil => rfl
  | cons parts lists ih =>
    obtain ⟨hparts, hlists⟩ := List.forall_mem_cons.mp hne
    cases lists with
    | nil => simp
    | cons others lists =>
      have hflat : (others :: lists).flatten ≠ [] := by simp [hlists others (by simp)]
      rw [List.map_cons, List.map_cons, join_cons_cons, ← List.map_cons, ih hlists]
      exact (String.intercalate_append_of_ne_nil hparts hflat).symm

/-- The lines of a text after they have been wrapped. -/
def wrappedLines (width : Nat) (text : List Char) : List (List Char) :=
  ((lines text).filter fun line => !allBlank line).flatMap (wrapLine width)

theorem join_wrapLines (width : Nat) (text : String) :
    join "\n" (wrapLines width text) =
      join "\n" ((wrappedLines width text.toList).map String.ofList) := by
  have hne : ∀ parts ∈ ((lines text.toList).filter fun line => !allBlank line).map
      (fun line => (wrapLine width line).map String.ofList), parts ≠ [] := by
    intro parts hparts
    obtain ⟨line, hline, rfl⟩ := List.mem_map.mp hparts
    have hsolid : allBlank line = false := by simpa using (List.mem_filter.mp hline).2
    simpa using wrapLine_ne_nil hsolid
  rw [wrapLines, wrappedLines, List.map_flatMap, List.flatMap_def, ← join_map_join "\n" hne,
    List.map_map]
  rfl

theorem solid_wrappedLines (width : Nat) (text : List Char) :
    solid (wrappedLines width text).flatten = solid text := by
  have hlines : solid (lines text).flatten = solid text := solid_linesFrom [] text
  rw [← hlines, wrappedLines]
  generalize lines text = all
  induction all with
  | nil => rfl
  | cons line all ih =>
    cases hline : allBlank line with
    | true => simp [hline, solid_eq_nil_iff.mpr hline, ih]
    | false => simp [hline, solid_wrapLine, ih]

theorem not_isLineEnd_of_mem_linesFrom {current text : List Char}
    (hcurrent : ∀ c ∈ current, isLineEnd c = false) :
    ∀ line ∈ linesFrom current text, ∀ c ∈ line, isLineEnd c = false := by
  fun_induction linesFrom current text with
  | case1 | case2 => grind
  | case3 current cs ih => grind
  | case4 current c cs hnot hend ih => grind
  | case5 current c cs hnot hend ih => exact ih (by grind)

theorem newline_not_mem_wrappedLines {width : Nat} {text line : List Char}
    (hline : line ∈ wrappedLines width text) : '\n' ∉ line := by
  obtain ⟨whole, hwhole, hpiece⟩ := List.mem_flatMap.mp hline
  have hends : ∀ c ∈ whole, c ≠ '\n' := fun c hc h =>
    absurd (not_isLineEnd_of_mem_linesFrom (by simp) whole (List.mem_filter.mp hwhole).1 c hc)
      (by simp [h, isLineEnd])
  exact fun hmem => forall_wrapLine (by decide) hends line hpiece '\n' hmem rfl

theorem solid_intercalate (lines : List (List Char)) :
    solid (['\n'].intercalate lines) = solid lines.flatten := by
  induction lines with
  | nil => rfl
  | cons line lines ih =>
    cases lines with
    | nil => simp
    | cons other lines =>
      have hfeed : solid ['\n'] = [] := rfl
      rw [List.intercalate_cons_cons, solid_append, solid_append, hfeed, ih, List.append_nil,
        ← solid_append]
      rfl

/-- Every line of a wrapped text has been filled, except that a blank text has one empty line. -/
theorem filled_of_mem_split {width : Nat} {text line : String}
    (hline : line ∈ split '\n' (join "\n" (wrapLines width text))) :
    Filled width line.toList ∨ solid text.toList = [] ∧ line = "" := by
  rw [join_wrapLines] at hline
  by_cases hnil : wrappedLines width text.toList = []
  · refine .inr ⟨?_, ?_⟩
    · rw [← solid_wrappedLines width, hnil]
      rfl
    · simpa [hnil, join, split, splitAt] using hline
  · rw [split_join rfl (by simpa using hnil)] at hline
    · obtain ⟨chars, hchars, rfl⟩ := List.mem_map.mp hline
      obtain ⟨whole, -, hpiece⟩ := List.mem_flatMap.mp hchars
      rw [String.toList_ofList]
      exact .inl (filled_of_mem_wrapLine hpiece)
    · rw [List.forall_mem_map]
      intro chars hchars
      rw [String.toList_ofList]
      exact newline_not_mem_wrappedLines hchars

/-- A text can be wrapped to every positive width. The solid characters of the wrapped text are
    those of the text. Unless the text is blank, no line of the wrapped text is empty. No line
    beyond the width has a space in it. -/
theorem wrap_keeps_solid {width : Int} {text : String} (hwidth : 0 < width) :
    ∃ wrapped, wrap width text = .ok wrapped ∧ solid wrapped.toList = solid text.toList ∧
      (solid text.toList ≠ [] → "" ∉ split '\n' wrapped) ∧
      ∀ line ∈ split '\n' wrapped, width < line.length → ' ' ∉ line.toList := by
  refine ⟨join "\n" (wrapLines width.toNat text), if_neg (by omega), ?_, ?_, ?_⟩
  · have hchars : (join "\n" (wrapLines width.toNat text)).toList =
        ['\n'].intercalate (wrappedLines width.toNat text.toList) := by
      rw [join_wrapLines, join, String.toList_intercalate]
      simp
    rw [hchars, solid_intercalate, solid_wrappedLines]
  · intro hsolid hempty
    rcases filled_of_mem_split hempty with hfilled | ⟨hblank, -⟩
    · exact hfilled.ne_nil rfl
    · exact hsolid hblank
  · intro line hline hwide hspace
    rcases filled_of_mem_split hline with hfilled | ⟨-, rfl⟩
    · rw [← String.length_toList] at hwide
      cases hfilled.unbroken (by omega) ' ' hspace
    · simp at hspace

/-- A tab, a dash, a hyphen, a separator of another script and a word that is too long. -/
theorem wrap_keeps_solid_narrow :
    0 < (6 : Int) ∧ ∃ wrapped, wrap 6 "\tone--two\u2028co-author incomparable" = .ok wrapped ∧
      wrapped = "one--\ntwo\nco-\nauthor\nincomparable" ∧
      solid wrapped.toList = solid "\tone--two\u2028co-author incomparable".toList ∧
      "" ∉ split '\n' wrapped ∧
      ∀ line ∈ split '\n' wrapped, 6 < line.length → ' ' ∉ line.toList := by
  have htext : (wrap 6 "\tone--two\u2028co-author incomparable").toOption =
      some "one--\ntwo\nco-\nauthor\nincomparable" := by
    decide +kernel
  obtain ⟨wrapped, hwrap, hsolid, hempty, hwide⟩ :=
    @wrap_keeps_solid 6 "\tone--two\u2028co-author incomparable" (by decide)
  refine ⟨by decide, wrapped, hwrap, ?_, hsolid, hempty (by decide +kernel), ?_⟩
  · rw [hwrap] at htext
    exact Option.some.inj htext
  · intro line hline h
    exact hwide line hline (by omega)

end Klein.Text
