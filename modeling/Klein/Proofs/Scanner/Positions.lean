import Klein.Proofs.Scanner.Division

namespace Klein

open Text

/-- Where the last line of a text starts: behind its last line feed, or at the start of the text if
    it has none. -/
def lineStart (text : List Char) : Nat :=
  text.length - (text.reverse.takeWhile (· ≠ '\n')).length

theorem lineStart_concat (text : List Char) (c : Char) :
    lineStart (text ++ [c]) = if c = '\n' then text.length + 1 else lineStart text := by
  rw [lineStart, List.reverse_append, List.reverse_singleton, List.singleton_append,
    List.takeWhile_cons, List.length_append, List.length_singleton]
  by_cases hfeed : c = '\n'
  · simp [hfeed]
  · simp [hfeed, lineStart]

theorem lineStart_cons (c : Char) (text : List Char) :
    lineStart (c :: text) = if '\n' ∈ c :: text then lineStart text + 1 else 0 := by
  induction text using List.reverseRecOn with
  | nil =>
    by_cases hfeed : c = '\n'
    · simp [hfeed, lineStart]
    · simp [hfeed, lineStart, eq_comm]
  | append_singleton text d ih =>
    rw [← List.cons_append, lineStart_concat, lineStart_concat, ih]
    by_cases hfeed : d = '\n'
    · simp [hfeed]
    · simp [hfeed, eq_comm]

theorem lineStart_le_length (text : List Char) : lineStart text ≤ text.length :=
  Nat.sub_le _ _

/-- A place tells where its offset is in a text: its line is one more than there are line feeds
    before the offset, and its column one more than there are characters since the last of them. -/
structure Position.Locates (text : String) (p : Position) : Prop where
  nonneg : 0 ≤ p.offset
  le_length : p.offset ≤ text.length
  line : p.line = 1 + (text.toList.take p.offset.toNat).count '\n'
  column : p.column = 1 + (p.offset - lineStart (text.toList.take p.offset.toNat))

namespace Position

theorem after_line (position : Position) (text : List Char) :
    (position.after text).line = position.line + text.count '\n' := by
  induction text generalizing position with
  | nil => simp [after]
  | cons c text ih =>
    have hrest : position.after (c :: text) = (position.afterChar c).after text := rfl
    have hchar : (position.afterChar c).line = position.line + if c = '\n' then 1 else 0 := by
      unfold afterChar
      split
      · rfl
      · exact (Int.add_zero _).symm
    rw [hrest, ih, hchar, List.count_cons]
    by_cases hfeed : c = '\n'
    · simp only [hfeed, if_true, beq_self_eq_true]
      omega
    · simp [hfeed]

theorem after_column (text : List Char) :
    (after {} text).column = 1 + (text.length - lineStart text) := by
  induction text using List.reverseRecOn with
  | nil => rfl
  | append_singleton text c ih =>
    have hchar : (after {} (text ++ [c])) = (after {} text).afterChar c := by
      rw [← after_after]
      rfl
    rw [hchar, lineStart_concat, List.length_append, List.length_singleton, afterChar]
    by_cases hfeed : c = '\n'
    · simp [hfeed, newline]
    · simp only [hfeed, if_false, advance, ih]
      omega

/-- The place behind the first characters of a text is that of their number. -/
theorem locates_after {text : String} {before rest : List Char}
    (htext : text.toList = before ++ rest) : (after {} before).Locates text := by
  have hoffset := offset_after_start before
  have htake : text.toList.take (after {} before).offset.toNat = before := by
    rw [hoffset, Int.toNat_natCast, htext, List.take_left]
  refine ⟨by omega, ?_, ?_, ?_⟩
  · rw [hoffset, ← String.length_toList, htext, List.length_append]
    omega
  · rw [htake, after_line]
  · rw [htake, after_column, hoffset]

end Position

theorem Text.length_splitAt (separator : Char) (text : List Char) :
    (splitAt separator text).length = text.count separator + 1 := by
  induction text with
  | nil => rfl
  | cons c text ih =>
    rw [splitAt, List.count_cons]
    by_cases hc : c = separator
    · simp [hc, ih]
    · cases hrest : splitAt separator text with
      | nil => simp [hrest] at ih
      | cons piece pieces => simpa [hc, hrest] using ih

/-- The line on which some characters end goes from its start to the next line feed. -/
theorem Text.splitAt_lineStart (before rest : List Char) :
    (splitAt '\n' (before ++ rest))[before.count '\n']? =
      some (before.drop (lineStart before) ++ rest.takeWhile (· ≠ '\n')) := by
  induction before with
  | nil =>
    rw [List.nil_append, List.count_nil, List.drop_nil, List.nil_append]
    induction rest with
    | nil => rfl
    | cons c rest ih =>
      rw [splitAt]
      by_cases hfeed : c = '\n'
      · simp [hfeed]
      · cases hrest : splitAt '\n' rest <;> simp_all
  | cons c before ih =>
    rw [List.cons_append, splitAt, List.count_cons, lineStart_cons]
    by_cases hfeed : c = '\n'
    · simp [hfeed, ih]
    · have hlength := length_splitAt '\n' (before ++ rest)
      cases hpieces : splitAt '\n' (before ++ rest) with
      | nil => simp [hpieces] at hlength
      | cons piece pieces =>
        rw [hpieces] at ih
        -- the character goes to the first piece, and the last one if no line feed follows
        by_cases hlater : '\n' ∈ before
        · obtain ⟨n, hn⟩ : ∃ n, before.count '\n' = n + 1 :=
            Nat.exists_eq_succ_of_ne_zero (List.count_pos_iff.mpr hlater).ne'
          simp_all
        · have hstart : lineStart before = 0 := by
            cases before with
            | nil => rfl
            | cons d before => rw [lineStart_cons, if_neg hlater]
          have hnone : '\n' ∉ c :: before :=
            List.not_mem_cons_of_ne_of_not_mem (Ne.symm hfeed) hlater
          rw [if_neg hnone]
          simpa [hfeed, hstart, List.count_eq_zero_of_not_mem hlater] using ih

theorem sourceLine_after {text : String} {before rest : List Char}
    (htext : text.toList = before ++ rest) :
    sourceLine text ((Position.after {} before).line - 1) =
      .ok (String.ofList (before.drop (lineStart before) ++ rest.takeWhile (· ≠ '\n'))) := by
  have hline : (Position.after {} before).line - 1 = (before.count '\n' : Int) := by
    have hfirst : ({} : Position).line = 1 := rfl
    rw [Position.after_line, hfirst]
    omega
  have hpiece := splitAt_lineStart before rest
  rw [← htext] at hpiece
  rw [hline, sourceLine, if_neg (by omega), Int.toNat_natCast, split, List.getElem?_map, hpiece]
  rfl

/-- No token goes beyond the end of a line. -/
theorem Kind.Spells.no_line_feed {kind : Kind} {text : String} (hspells : kind.Spells text) :
    '\n' ∉ text.toList := by
  cases kind with
  | identifier =>
    intro hfeed
    have hword := IsName.chars hspells _ hfeed
    revert hword
    decide
  | integer =>
    intro hfeed
    have hdigit := IsNumeral.digits hspells _ hfeed
    revert hdigit
    decide
  | boolean => rcases hspells with rfl | rfl <;> decide
  | endOfFile => cases hspells
  | _ =>
    cases hspells
    decide

/-- A token is shown by a text: its place is one of the text, its line can be shown, and the line
    has the spelling of the token from the column of the token on. -/
structure Token.ShownIn (text : String) (token : Token) : Prop where
  locates : token.position.Locates text
  spelled : token.kind = .endOfFile ∧ token.spelling = "" ∨ token.kind.Spells token.spelling
  line : ∃ line, sourceLine text (token.position.line - 1) = .ok line ∧
    token.spelling.toList <+: line.toList.drop (token.position.column - 1).toNat

theorem Token.shownIn_of_spelled {text : String} {token : Token} {before rest : List Char}
    (htext : text.toList = before ++ (token.spelling.toList ++ rest))
    (hplace : token.position = Position.after {} before)
    (hspelled : token.kind = .endOfFile ∧ token.spelling = "" ∨
      token.kind.Spells token.spelling) : token.ShownIn text := by
  have hfeed : '\n' ∉ token.spelling.toList := by
    rcases hspelled with ⟨-, hnothing⟩ | hspells
    · rw [hnothing]
      decide
    · exact hspells.no_line_feed
  refine ⟨hplace ▸ Position.locates_after htext, hspelled, _, hplace ▸ sourceLine_after htext, ?_⟩
  have hstart := lineStart_le_length before
  have hcolumn : (token.position.column - 1).toNat = (before.drop (lineStart before)).length := by
    rw [hplace, Position.after_column, List.length_drop]
    omega
  rw [hcolumn, String.toList_ofList, List.drop_left,
    List.takeWhile_append_of_pos (by simpa using fun c hc => ne_of_mem_of_not_mem hc hfeed)]
  exact List.prefix_append _ _

/-- The scanner works its way ahead through the text: first over a gap, and then over the piece that
    it takes. -/
theorem look_passes (position : Position) (spelling : String) (text : List Char) :
    ∃ gap taken, text = gap ++ (look position spelling text).startText ∧
      (look position spelling text).start = position.after gap ∧
      (look position spelling text).startText =
        taken ++ (look position spelling text).reachedText ∧
      (look position spelling text).reached =
        (look position spelling text).start.after taken := by
  fun_induction look position spelling text with
  | case1 position spelling => exact ⟨[], [], rfl, rfl, rfl, rfl⟩
  | case2 position spelling c cs reading reached spelling' hpiece ih =>
    obtain ⟨gap, taken, htext, hstart, hrest⟩ := ih
    have happend : reading.taken ++ reading.rest = c :: cs := readPiece_append c cs
    refine ⟨reading.taken ++ gap, taken, ?_, ?_, hrest⟩
    · rw [List.append_assoc, ← htext, happend]
    · rw [hstart, Position.after_after]
  | case3 position spelling c cs reading reached spelling' kind hpiece =>
    exact ⟨[], reading.taken, rfl, rfl, (readPiece_append c cs).symm, rfl⟩
  | case4 position spelling c cs reading reached spelling' fault hpiece =>
    exact ⟨[], reading.taken, rfl, rfl, (readPiece_append c cs).symm, rfl⟩

namespace Scanner

/-- What a scanner can be asked for. -/
inductive Request
  | next
  | peek
  | hasNext
deriving DecidableEq, Repr

/-- The scanner after a request, also after one that it could not answer. -/
def serve (s : Scanner) : Request → Scanner
  | .next => s.next.2
  | .peek => s.peek.2
  | .hasNext => s

/-- The scanner after some requests in order. -/
def serveAll (s : Scanner) (requests : List Request) : Scanner :=
  requests.foldl serve s

/-- A scanner stands in a text: it works its way ahead between what it has passed and what is
    pending, and its own place is one of the text, too. -/
structure StandsIn (text : String) (s : Scanner) : Prop where
  working : ∃ before, text.toList = before ++ s.pending ∧ s.working = Position.after {} before
  position : ∃ before rest, text.toList = before ++ rest ∧ s.position = Position.after {} before

variable {text : String} {s : Scanner}

theorem standsIn_ofText (text : String) : StandsIn text (ofText text) where
  working := ⟨[], rfl, rfl⟩
  position := ⟨[], text.toList, rfl, rfl⟩

/-- What the scanner finds from where it stands is at places of the text. -/
theorem StandsIn.look (h : StandsIn text s) :
    ∃ before taken, (look s.working s.spelling s.pending).start = Position.after {} before ∧
      (look s.working s.spelling s.pending).reached = Position.after {} (before ++ taken) ∧
      text.toList = before ++ (look s.working s.spelling s.pending).startText ∧
      text.toList = before ++ taken ++ (look s.working s.spelling s.pending).reachedText := by
  obtain ⟨passed, htext, hworking⟩ := h.working
  obtain ⟨gap, taken, hpending, hstart, htaken, hreached⟩ :=
    look_passes s.working s.spelling s.pending
  have hplace : (Klein.look s.working s.spelling s.pending).start =
      Position.after {} (passed ++ gap) := by
    rw [hstart, hworking, Position.after_after]
  have hbefore : text.toList = passed ++ gap ++
      (Klein.look s.working s.spelling s.pending).startText := by
    rw [htext, List.append_assoc, ← hpending]
  refine ⟨passed ++ gap, taken, hplace, ?_, hbefore, ?_⟩
  · rw [hreached, hplace, Position.after_after]
  · rw [hbefore, htaken, List.append_assoc (passed ++ gap), ← htaken]

theorem StandsIn.next (h : StandsIn text s) : StandsIn text s.next.2 := by
  obtain ⟨before, taken, hstart, hreached, htext, hrest⟩ := h.look
  unfold Scanner.next
  split
  · exact h
  · dsimp only
    split
    · exact ⟨⟨_, hrest, hreached⟩, ⟨_, _, hrest, hreached⟩⟩
    · exact ⟨⟨_, hrest, hreached⟩, ⟨_, _, htext, hstart⟩⟩

theorem StandsIn.peek (h : StandsIn text s) : StandsIn text s.peek.2 := by
  obtain ⟨before, taken, hstart, hreached, htext, hrest⟩ := h.look
  unfold Scanner.peek
  split
  · exact h
  · dsimp only
    split
    · exact ⟨⟨_, htext, hstart⟩, ⟨_, _, htext, hstart⟩⟩
    · exact ⟨⟨_, hrest, hreached⟩, ⟨_, _, htext, hstart⟩⟩

theorem StandsIn.serve (h : StandsIn text s) (request : Request) :
    StandsIn text (s.serve request) := by
  cases request with
  | next => exact h.next
  | peek => exact h.peek
  | hasNext => exact h

theorem StandsIn.serveAll (h : StandsIn text s) (requests : List Request) :
    StandsIn text (s.serveAll requests) := by
  induction requests generalizing s with
  | nil => exact h
  | cons request requests ih => exact ih (h.serve request)

theorem StandsIn.locates_position (h : StandsIn text s) : s.position.Locates text := by
  obtain ⟨before, rest, htext, hposition⟩ := h.position
  rw [hposition]
  exact Position.locates_after htext

theorem StandsIn.locates_working (h : StandsIn text s) : s.working.Locates text := by
  obtain ⟨before, htext, hworking⟩ := h.working
  rw [hworking]
  exact Position.locates_after htext

/-- What the scanner finds as a token from where it stands is shown by the text. -/
theorem StandsIn.shownIn_of_look (h : StandsIn text s) {token : Token}
    (hlook : (Klein.look s.working s.spelling s.pending).outcome = .ok token) :
    token.ShownIn text := by
  obtain ⟨passed, htext, hworking⟩ := h.working
  obtain ⟨gap, hfound⟩ := look_found hlook
  have hplace := hfound.place
  rw [hfound.text_eq, ← List.append_assoc] at htext
  rw [hworking, Position.after_after] at hplace
  refine Token.shownIn_of_spelled htext hplace ?_
  by_cases hend : token.kind = .endOfFile
  · exact .inl ⟨hend, (hfound.ends hend).1⟩
  · exact .inr (hfound.spells hend)

theorem StandsIn.shownIn_of_next (h : StandsIn text s) {token : Token}
    (hnext : s.next.1 = .ok token) : token.ShownIn text :=
  h.shownIn_of_look (look_of_next_ok (Prod.ext hnext rfl)).1

/-- All tokens that are left are shown by the text. -/
theorem StandsIn.shownIn_of_mem_drain (h : StandsIn text s) {token : Token}
    (hmem : token ∈ s.drain.1) : token.ShownIn text := by
  fun_induction drain s with
  | case1 => cases hmem
  | case2 s _ first after hnext tokens fault last hafter ih =>
    rw [hafter] at ih
    rcases List.mem_cons.mp hmem with rfl | hmem
    · exact h.shownIn_of_next (by rw [hnext])
    · have hstands := h.next
      rw [hnext] at hstands
      exact ih hstands hmem
  | case3 => cases hmem

/-- Whatever a scanner has been asked for, both its places tell where their offsets are in the text,
    what is pending is the text from the offset on from which it works its way ahead, and a token
    that it gives next is shown by the text. -/
theorem serveAll_located (text : String) (requests : List Request) :
    ((ofText text).serveAll requests).position.Locates text ∧
      ((ofText text).serveAll requests).working.Locates text ∧
      ((ofText text).serveAll requests).pending =
        text.toList.drop ((ofText text).serveAll requests).working.offset.toNat ∧
      ∀ token, ((ofText text).serveAll requests).next.1 = .ok token ∨
          ((ofText text).serveAll requests).peek.1 = .ok token → token.ShownIn text := by
  have h := (standsIn_ofText text).serveAll requests
  refine ⟨h.locates_position, h.locates_working, ?_, fun token htoken => ?_⟩
  · obtain ⟨before, htext, hworking⟩ := h.working
    rw [hworking, Position.offset_after_start, Int.toNat_natCast, htext, List.drop_left]
  · rw [peek_fst, or_self] at htoken
    exact h.shownIn_of_next htoken

/-- A scanner that has failed inside of a word behind a comment of three lines goes on with the rest
    of the word. -/
theorem serveAll_located_after_fault :
    ((ofText "(*\n*\n*) 1a").serveAll [.hasNext, .next]).next.1 =
        .ok ⟨.identifier, some "a", ⟨3, 5, 9⟩⟩ ∧
      (⟨.identifier, some "a", ⟨3, 5, 9⟩⟩ : Token).ShownIn "(*\n*\n*) 1a" := by
  have hnext : ((ofText "(*\n*\n*) 1a").serveAll [.hasNext, .next]).next.1 =
      .ok ⟨.identifier, some "a", ⟨3, 5, 9⟩⟩ := by
    decide +kernel
  obtain ⟨-, -, -, hshown⟩ := serveAll_located "(*\n*\n*) 1a" [.hasNext, .next]
  exact ⟨hnext, hshown _ (.inl hnext)⟩

end Scanner

end Klein
