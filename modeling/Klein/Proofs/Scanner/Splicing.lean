import Klein.Proofs.Scanner.Writing

namespace Klein

/-- Every lexeme that ends before one text ends before another one. -/
def EndsLike (rest other : List Char) : Prop :=
  ∀ lexeme, Bounded lexeme rest → Bounded lexeme other

theorem EndsLike.refl (rest : List Char) : EndsLike rest rest :=
  fun _ hbounded => hbounded

theorem EndsLike.append {rest other : List Char} (h : EndsLike rest other) (front : List Char) :
    EndsLike (front ++ rest) (front ++ other) := by
  cases front with
  | nil => exact h
  | cons c front => exact fun _ hbounded => ⟨hbounded.delimited, hbounded.uncommented⟩

/-- Every lexeme ends before a gap. -/
theorem IsGap.bounded {gap : List Char} (hgap : IsGap gap) (hne : gap ≠ []) (rest : List Char)
    (lexeme : String) : Bounded lexeme (gap ++ rest) := by
  have hhead : ∃ c cs, gap ++ rest = c :: cs ∧ isDelimiter c = true ∧ c ≠ '*' := by
    cases hgap with
    | nil => exact absurd rfl hne
    | blank hblank =>
      refine ⟨_, _, rfl, ?_⟩
      simp only [List.mem_cons, List.not_mem_nil, or_false] at hblank
      rcases hblank with rfl | rfl | rfl | rfl <;> decide
    | comment => exact ⟨_, _, rfl, by decide⟩
  obtain ⟨c, cs, htext, hdelimiter, hstar⟩ := hhead
  rw [htext]
  exact ⟨fun _ d hd => Option.mem_some.mp hd ▸ hdelimiter,
    fun _ d hd => Option.mem_some.mp hd ▸ hstar⟩

/-- Layout before a text ends what the text ends. -/
theorem IsGap.endsLike {gap : List Char} (hgap : IsGap gap) (rest : List Char) :
    EndsLike rest (gap ++ rest) := by
  by_cases hne : gap = []
  · rw [hne]
    exact .refl rest
  · exact fun lexeme _ => hgap.bounded hne rest lexeme

namespace Scanner

variable {s other : Scanner} {position place : Position} {text gap rest : List Char}

/-- The tokens before a place are the same if the text behind it is exchanged for another one before
    which the same lexemes end. -/
theorem Ready.drain_exchange {front back : List Token} (h : s.Ready position text)
    (hdrain : s.drain.1 = front ++ back) (hfront : ∀ token ∈ front, token.kind ≠ .endOfFile) :
    ∃ (passed rest : List Char) (after : Scanner), text = passed ++ rest ∧
      after.Ready (position.after passed) rest ∧ s.drain = (front ++ after.drain.1, after.drain.2) ∧
      ∀ (new : List Char) (other : Scanner), EndsLike rest new →
        other.Ready position (passed ++ new) →
        ∃ left : Scanner, left.Ready (position.after passed) new ∧
          other.drain = (front ++ left.drain.1, left.drain.2) := by
  induction front generalizing s position text with
  | nil => exact ⟨[], text, s, rfl, h, rfl, fun _ other _ hother => ⟨other, hother, rfl⟩⟩
  | cons token front ih =>
    obtain ⟨after, hnext, hstep⟩ := h.exists_next hdrain
    obtain ⟨gap, rest, hgap, hspells, hbounded, rfl, htoken, hafter⟩ :=
      h.of_next hnext (hfront token (by simp))
    rw [hstep] at hdrain
    obtain ⟨passed, rest, final, rfl, hfinal, hrest, hnew⟩ :=
      ih hafter (List.cons.inj hdrain).2 fun t ht => hfront t (by simp [ht])
    rw [Position.after_after] at hfinal
    refine ⟨gap ++ token.spelling.toList ++ passed, rest, final, by simp, hfinal, ?_, ?_⟩
    · rw [hstep, hrest, List.cons_append]
    · intro new other hends hother
      have hsplit : gap ++ token.spelling.toList ++ passed ++ new =
          gap ++ (token.spelling.toList ++ (passed ++ new)) := by simp
      -- the token still ends where it did, because what follows it starts alike
      obtain ⟨between, hagain, hready⟩ := (hsplit ▸ hother).next hgap hspells
        (hends.append passed _ hbounded)
      rw [← htoken] at hagain
      obtain ⟨left, hleft, hlast⟩ := hnew new between hends hready
      rw [Position.after_after] at hleft
      refine ⟨left, hleft, ?_⟩
      rw [drain_of_next_ok hagain, hlast, List.cons_append]

/-- The kinds and values of the tokens behind a gap do not depend on the gap, nor on the place. -/
theorem Ready.marks_of_gap {new : List Char} (hgap : IsGap gap) (hnew : IsGap new)
    (h : s.Ready position (gap ++ text)) (hother : other.Ready place (new ++ text))
    (hscan : s.drain.2.1 = none) :
    other.drain.2.1 = none ∧ other.drain.1.map Token.mark = s.drain.1.map Token.mark := by
  fun_induction drain s generalizing position place text gap new other with
  | case1 s hend => simp [h.opened] at hend
  | case2 s _ token after hnext tokens fault last hafter ih =>
    rw [hafter] at ih
    -- the gap is passed over first, and the token is found behind it
    have hfound := (look_of_next_ok hnext).1
    obtain ⟨spelling, hpassed⟩ := look_append_gap hgap position s.spelling text
    rw [h.pending, h.working, hpassed] at hfound
    obtain ⟨inner, hfound⟩ := look_found hfound
    by_cases hkind : token.kind = .endOfFile
    · rw [hfound.text_of_end hkind] at hother
      obtain ⟨final, hend⟩ := hother.drain_end (hnew.append hfound.isGap)
      have hmark : token.mark = (.endOfFile, none) := by
        rw [Token.mark, hfound.value, hkind]
        rfl
      have hterminated := next_terminated hnext
      rw [drain_of_terminated (by simp [hterminated, hkind])] at hafter
      cases hafter
      rw [hend]
      exact ⟨rfl, by rw [List.map_singleton, List.map_singleton, hmark]; rfl⟩
    · have hspells := hfound.spells hkind
      rw [hfound.text_eq, ← List.append_assoc] at h hother
      obtain ⟨left, hagain, hleft⟩ :=
        h.next (hgap.append hfound.isGap) hspells (hfound.bounded hkind)
      rw [hnext] at hagain
      obtain rfl : after = left := (Prod.mk.inj hagain).2
      obtain ⟨far, hfar, hready⟩ :=
        hother.next (hnew.append hfound.isGap) hspells (hfound.bounded hkind)
      obtain ⟨hnone, hmarks⟩ := ih .nil .nil hleft hready hscan
      rw [drain_of_next_ok hfar, List.map_cons, List.map_cons, hmarks]
      refine ⟨hnone, ?_⟩
      have hmark : token.mark = (token.kind, tokenValue token.kind token.spelling) := by
        rw [Token.mark, ← hfound.value]
      rw [hmark]
      rfl
  | case3 => cases hscan

end Scanner

/-- A text with some characters put in at an offset. -/
def insertAt (text : List Char) (offset : Nat) (new : List Char) : List Char :=
  text.take offset ++ (new ++ text.drop offset)

theorem insertAt_length (front back new : List Char) :
    insertAt (front ++ back) front.length new = front ++ (new ++ back) := by
  rw [insertAt, List.take_left, List.drop_left]

theorem insertAt_append (front back : List Char) (offset : Nat) (new : List Char) :
    insertAt (front ++ back) (front.length + offset) new = front ++ insertAt back offset new := by
  rw [insertAt, insertAt, List.take_length_add_append, List.drop_length_add_append,
    List.append_assoc]

namespace Scanner

variable {s : Scanner} {position : Position} {text gap layout : List Char}

theorem Ready.marks_insertAt_gap (h : s.Ready position (gap ++ text)) (hgap : IsGap gap)
    (hlayout : IsGap layout) (hscan : s.drain.2.1 = none) :
    EndsLike (gap ++ text) (insertAt (gap ++ text) gap.length layout) ∧
      ∀ other : Scanner, other.Ready position (insertAt (gap ++ text) gap.length layout) →
        other.drain.2.1 = none ∧ other.drain.1.map Token.mark = s.drain.1.map Token.mark := by
  rw [insertAt_length]
  refine ⟨(hlayout.endsLike text).append gap, fun other hother => ?_⟩
  rw [← List.append_assoc] at hother
  exact h.marks_of_gap hgap (hgap.append hlayout) hother hscan

/-- Layout that is put in at the lexeme of the first token changes neither the kinds nor the values
    of the tokens, nor what ends before the text. -/
theorem Ready.marks_insertAt {token : Token} {tokens : List Token} {offset : Nat}
    (h : s.Ready position text) (hdrain : s.drain.1 = token :: tokens)
    (hscan : s.drain.2.1 = none) (hlayout : IsGap layout)
    (hoffset : position.offset + offset = token.position.offset ∨
      position.offset + offset = token.position.offset + token.spelling.length) :
    EndsLike text (insertAt text offset layout) ∧
      ∀ other : Scanner, other.Ready position (insertAt text offset layout) →
        other.drain.2.1 = none ∧ other.drain.1.map Token.mark = s.drain.1.map Token.mark := by
  obtain ⟨after, hnext, hstep⟩ := h.exists_next hdrain
  by_cases hkind : token.kind = .endOfFile
  · obtain ⟨gap, hfound⟩ := h.found hnext
    obtain rfl := hfound.text_of_end hkind
    rw [hfound.place, Position.after_offset, (hfound.ends hkind).1] at hoffset
    obtain rfl : offset = text.length := by simp at hoffset; omega
    have hready : s.Ready position (text ++ []) := by rwa [List.append_nil]
    have hinsert := hready.marks_insertAt_gap hfound.isGap hlayout hscan
    rwa [List.append_nil] at hinsert
  · obtain ⟨gap, rest, hgap, hspells, hbounded, rfl, htoken, hafter⟩ := h.of_next hnext hkind
    have hplace : token.position.offset = position.offset + gap.length := by
      rw [htoken, Position.after_offset]
    rcases hoffset with hbefore | hbehind
    · obtain rfl : offset = gap.length := by omega
      exact h.marks_insertAt_gap hgap hlayout hscan
    · obtain rfl : offset = gap.length + token.spelling.toList.length := by
        rw [String.length_toList]
        omega
      have hends := hlayout.endsLike rest
      rw [insertAt_append, insertAt_length]
      refine ⟨(hends.append _).append gap, fun other hother => ?_⟩
      obtain ⟨left, hagain, hleft⟩ := hother.next hgap hspells (hends _ hbounded)
      rw [hstep] at hscan ⊢
      have hmarks := hafter.marks_of_gap .nil hlayout hleft hscan
      rw [drain_of_next_ok hagain, ← htoken, List.map_cons, List.map_cons, hmarks.2]
      exact ⟨hmarks.1, rfl⟩

/-- The tokens before another one do not end the text. -/
theorem ne_endOfFile_of_drain {text : String} {tokens front back : List Token} {token : Token}
    {last : Scanner} (hscan : (ofText text).drain = (tokens, none, last))
    (htokens : tokens = front ++ token :: back) : ∀ t ∈ front, t.kind ≠ .endOfFile := by
  obtain ⟨body, eof, hbody, -, hothers, -⟩ := drain_ok rfl hscan
  have hstart : front <+: body := by
    rw [hbody] at htokens
    rcases List.append_eq_append_iff.mp htokens with ⟨between, rfl, hsplit⟩ | ⟨between, rfl, -⟩
    · cases between with
      | nil => simp
      | cons t between => simp at hsplit
    · exact List.prefix_append _ _
  exact fun t ht => hothers t (hstart.subset ht)

/-- Layout that is put in immediately before or behind the lexeme of a token changes neither the
    kinds nor the values of the tokens. -/
theorem marks_insertAt {text : String} {tokens : List Token} {token : Token} {last : Scanner}
    {offset : Nat} {layout : List Char} (hscan : (ofText text).drain = (tokens, none, last))
    (htoken : token ∈ tokens) (hlayout : IsGap layout)
    (hoffset : (offset : Int) = token.position.offset ∨
      (offset : Int) = token.position.offset + token.spelling.length) :
    (ofText (String.ofList (insertAt text.toList offset layout))).drain.2.1 = none ∧
      (ofText (String.ofList (insertAt text.toList offset layout))).drain.1.map Token.mark =
        tokens.map Token.mark := by
  obtain ⟨front, back, htokens⟩ := List.append_of_mem htoken
  have hfront := ne_endOfFile_of_drain hscan htokens
  obtain ⟨passed, rest, after, htext, hafter, hdrain, hexchange⟩ :=
    (ready_ofText text).drain_exchange (by rw [hscan, htokens]) hfront
  rw [hscan, htokens] at hdrain
  obtain ⟨hrest, hfault⟩ := Prod.mk.inj hdrain
  have hback := (List.append_cancel_left hrest).symm
  have hplace : (passed.length : Int) ≤ token.position.offset := by
    obtain ⟨_, hnext, -⟩ := hafter.exists_next hback
    obtain ⟨gap, hfound⟩ := hafter.found hnext
    rw [hfound.place, Position.after_offset, Position.offset_after_start]
    omega
  obtain ⟨inner, rfl⟩ : ∃ inner, offset = passed.length + inner :=
    ⟨offset - passed.length, by omega⟩
  have hinner : (Position.after {} passed).offset + inner = token.position.offset ∨
      (Position.after {} passed).offset + inner = token.position.offset + token.spelling.length := by
    rw [Position.offset_after_start]
    omega
  obtain ⟨hends, hmarks⟩ := hafter.marks_insertAt hback (by rw [← hfault]) hlayout hinner
  have hready := ready_ofText (String.ofList (passed ++ insertAt rest inner layout))
  rw [String.toList_ofList] at hready
  obtain ⟨left, hleft, hnew⟩ := hexchange _ _ hends hready
  obtain ⟨hnone, hsame⟩ := hmarks left hleft
  rw [htext, insertAt_append, hnew, List.map_append, htokens, List.map_append, hsame, hback]
  exact ⟨hnone, rfl⟩

end Scanner

end Klein
