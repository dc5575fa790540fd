import Klein.Proofs.Scanner.Positions
import Mathlib.Algebra.Group.Nat.Even

namespace Klein

/-- The number of stars at the end of a text. -/
def trailingStars (text : List Char) : Nat :=
  (text.reverse.takeWhile (· = '*')).length

theorem trailingStars_le_length (text : List Char) : trailingStars text ≤ text.length := by
  calc trailingStars text ≤ text.reverse.length := (List.takeWhile_prefix _).length_le
    _ = text.length := List.length_reverse

theorem trailingStars_cons (c : Char) (text : List Char) :
    trailingStars (c :: text) =
      if trailingStars text = text.length ∧ c = '*' then trailingStars text + 1
      else trailingStars text := by
  have happend : trailingStars (c :: text) =
      (if trailingStars text = text.length then text.reverse ++ [c].takeWhile (· = '*')
        else text.reverse.takeWhile (· = '*')).length := by
    rw [trailingStars, List.reverse_cons, List.takeWhile_append, List.length_reverse]
    rfl
  rw [happend]
  by_cases hall : trailingStars text = text.length
  · by_cases hc : c = '*' <;> simp [hall, hc]
  · rw [if_neg hall, if_neg fun h => hall h.1]
    rfl

theorem trailingStars_char {c : Char} (hc : c ≠ '*') (text : List Char) :
    trailingStars (c :: text) = trailingStars text := by
  rw [trailingStars_cons, if_neg fun h => hc h.2]

/-- A star and the character that it takes with it do not count. -/
theorem even_trailingStars_star (c : Char) (text : List Char) :
    Even (trailingStars ('*' :: c :: text)) ↔ Even (trailingStars text) := by
  have hle := trailingStars_le_length text
  rw [trailingStars_cons, trailingStars_cons c, List.length_cons]
  by_cases hboth : trailingStars text = text.length ∧ c = '*'
  · rw [if_pos hboth, if_pos ⟨by rw [hboth.1], rfl⟩]
    simp [Nat.even_add_one]
  · rw [if_neg hboth, if_neg (by omega)]

/-- What stands before a star and a parenthesis in a text that starts with a star: nothing, the
    star alone, or the star and the next character, and then more. -/
theorem star_split {c : Char} {text front rest : List Char}
    (h : '*' :: c :: text = front ++ '*' :: ')' :: rest) :
    (c = ')' ∧ front = []) ∨ front = ['*'] ∨
      ∃ front', front = '*' :: c :: front' ∧ text = front' ++ '*' :: ')' :: rest := by
  match front with
  | [] =>
    simp only [List.nil_append, List.cons.injEq] at h
    exact .inl ⟨h.2.1, rfl⟩
  | [d] =>
    simp only [List.cons_append, List.cons.injEq] at h
    exact .inr (.inl (by rw [← h.1]))
  | d :: e :: front' =>
    simp only [List.cons_append, List.cons.injEq] at h
    obtain ⟨rfl, rfl, htext⟩ := h
    exact .inr (.inr ⟨front', rfl, htext⟩)

theorem char_split {c : Char} {text front rest : List Char} (hc : c ≠ '*')
    (h : c :: text = front ++ '*' :: ')' :: rest) :
    ∃ front', front = c :: front' ∧ text = front' ++ '*' :: ')' :: rest := by
  match front with
  | [] => exact absurd (List.cons.inj h).1 hc
  | d :: front' =>
    simp only [List.cons_append, List.cons.injEq] at h
    obtain ⟨rfl, htext⟩ := h
    exact ⟨front', rfl, htext⟩

theorem not_even_trailingStars_star : ¬ Even (trailingStars ['*']) := by
  decide

/-- Reading a comment comes to no end if an even number of stars stands nowhere before a star and a
    parenthesis. -/
theorem readComment_eq_none_iff {text : List Char} :
    (readComment text).2 = none ↔
      ∀ front rest, text = front ++ '*' :: ')' :: rest → ¬ Even (trailingStars front) := by
  fun_induction readComment text with
  | case1 => simp
  | case2 =>
    refine iff_of_true rfl fun front rest h => ?_
    have hlength := congrArg List.length h
    simp at hlength
    omega
  | case3 cs =>
    refine iff_of_false (by simp) fun h => h [] cs rfl ?_
    decide
  | case4 c cs hc taken ending hrest ih =>
    rw [hrest] at ih
    rw [show (('*' :: c :: taken, ending) : List Char × Option (List Char)).2 = ending from rfl, ih]
    constructor
    · intro h front rest hsplit
      rcases star_split hsplit with ⟨hclose, -⟩ | rfl | ⟨front', rfl, htext⟩
      · exact absurd hclose hc
      · exact not_even_trailingStars_star
      · rw [even_trailingStars_star]
        exact h front' rest htext
    · intro h front rest hsplit
      rw [← even_trailingStars_star c]
      exact h ('*' :: c :: front) rest (by rw [hsplit]; rfl)
  | case5 c cs hlast hstar taken ending hrest ih =>
    have hc : c ≠ '*' := by
      rintro rfl
      cases cs <;> simp_all
    rw [hrest] at ih
    rw [show ((c :: taken, ending) : List Char × Option (List Char)).2 = ending from rfl, ih]
    constructor
    · intro h front rest hsplit
      obtain ⟨front', rfl, htext⟩ := char_split hc hsplit
      rw [trailingStars_char hc]
      exact h front' rest htext
    · intro h front rest hsplit
      rw [← trailingStars_char hc]
      exact h (c :: front) rest (by rw [hsplit]; rfl)

/-- The inside of a comment ends in an even number of stars. -/
theorem IsCommentBody.even {text : List Char} (h : IsCommentBody text) :
    Even (trailingStars text) := by
  induction h with
  | nil => decide
  | char hc _ ih => rwa [trailingStars_char hc]
  | @star c cs _ _ ih => rwa [even_trailingStars_star]

/-- Before the inside of a comment ends, an even number of stars stands nowhere in front of a star
    and a parenthesis. -/
theorem IsCommentBody.not_even {text front rest : List Char} (h : IsCommentBody text)
    (hsplit : text ++ ['*', ')'] = front ++ '*' :: ')' :: rest) (hne : rest ≠ []) :
    ¬ Even (trailingStars front) := by
  induction h generalizing front with
  | nil =>
    have hlength := congrArg List.length hsplit
    have hpos := List.length_pos_iff.mpr hne
    simp at hlength
    omega
  | char hc _ ih =>
    obtain ⟨front', rfl, htext⟩ := char_split hc hsplit
    rw [trailingStars_char hc]
    exact ih htext
  | star hc _ ih =>
    rcases star_split hsplit with ⟨hclose, -⟩ | rfl | ⟨front', rfl, htext⟩
    · exact absurd hclose hc
    · exact not_even_trailingStars_star
    · rw [even_trailingStars_star]
      exact ih htext

/-- A comment ends at the first star and parenthesis with an even number of stars before them. -/
theorem isCommentBody_iff {text : List Char} :
    IsCommentBody text ↔ Even (trailingStars text) ∧
      ∀ front rest, text ++ ['*', ')'] = front ++ '*' :: ')' :: rest → rest ≠ [] →
        ¬ Even (trailingStars front) := by
  refine ⟨fun h => ⟨h.even, fun front rest => h.not_even⟩, ?_⟩
  rintro ⟨heven, hfirst⟩
  induction text using readComment.induct with
  | case1 => exact .nil
  | case2 => exact absurd heven not_even_trailingStars_star
  | case3 cs => exact absurd (by decide) (hfirst [] (cs ++ ['*', ')']) rfl (by simp))
  | case4 c cs hc taken ending hrest ih =>
    refine .star hc (ih ((even_trailingStars_star c cs).mp heven) fun front rest hsplit hne => ?_)
    rw [← even_trailingStars_star c]
    refine hfirst ('*' :: c :: front) rest ?_ hne
    rw [List.cons_append, List.cons_append, hsplit]
    rfl
  | case5 c cs hlast hstar taken ending hrest ih =>
    have hc : c ≠ '*' := by
      rintro rfl
      cases cs <;> simp_all
    rw [trailingStars_char hc] at heven
    refine .char hc (ih heven fun front rest hsplit hne => ?_)
    rw [← trailingStars_char hc]
    exact hfirst (c :: front) rest (by rw [List.cons_append, hsplit]; rfl) hne

namespace Position

/-- The place, in a text with something before it, of a place in the text itself. -/
def behind (base p : Position) : Position where
  line := base.line + p.line - 1
  column := if p.line = 1 then base.column + p.column - 1 else p.column
  offset := base.offset + p.offset

theorem behind_start (base : Position) : base.behind {} = base := by
  simp [behind]

theorem behind_afterChar {p : Position} (hline : 1 ≤ p.line) (base : Position) (c : Char) :
    base.behind (p.afterChar c) = (base.behind p).afterChar c := by
  unfold afterChar
  split
  · simp only [behind, newline, advance, mk.injEq]
    omega
  · simp only [behind, advance, mk.injEq, true_and]
    split <;> omega

theorem behind_after {p : Position} (hline : 1 ≤ p.line) (base : Position) (text : List Char) :
    base.behind (p.after text) = (base.behind p).after text := by
  induction text generalizing p with
  | nil => rfl
  | cons c text ih =>
    have hnext : 1 ≤ (p.afterChar c).line := by
      have hcount := after_line p [c]
      change (p.afterChar c).line = _ at hcount
      omega
    change base.behind ((p.afterChar c).after text) = ((base.behind p).afterChar c).after text
    rw [ih hnext, behind_afterChar hline]

end Position

def Token.behind (base : Position) (token : Token) : Token :=
  { token with position := base.behind token.position }

def LexicalError.behind (base : Position) (e : LexicalError) : LexicalError :=
  { e with position := base.behind e.position }

def ScanError.behind (base : Position) : ScanError → ScanError
  | .lexical e => .lexical (e.behind base)
  | .terminated => .terminated

theorem one_le_after_line {p : Position} (hline : 1 ≤ p.line) (text : List Char) :
    1 ≤ (p.after text).line := by
  rw [Position.after_line]
  omega

/-- The same is found from another place. -/
theorem look_behind {p : Position} (hline : 1 ≤ p.line) (base : Position) (spelling other : String)
    (text : List Char) :
    (look (base.behind p) other text).outcome =
        ((look p spelling text).outcome.map (·.behind base)).mapError (·.behind base) ∧
      (look (base.behind p) other text).reached = base.behind (look p spelling text).reached ∧
      (look (base.behind p) other text).reachedText = (look p spelling text).reachedText ∧
      1 ≤ (look p spelling text).reached.line := by
  fun_induction look p spelling text generalizing other with
  | case1 p spelling =>
    rw [look]
    exact ⟨rfl, rfl, rfl, hline⟩
  | case2 p spelling c cs reading reached spelling' hpiece ih =>
    rw [look_of_gap _ _ hpiece, ← Position.behind_after hline]
    exact ih (one_le_after_line hline _) _
  | case3 p spelling c cs reading reached spelling' kind hpiece =>
    rw [look_of_lexeme _ _ hpiece]
    exact ⟨rfl, (Position.behind_after hline base _).symm, rfl, one_le_after_line hline _⟩
  | case4 p spelling c cs reading reached spelling' fault hpiece =>
    rw [look_of_fault _ _ hpiece, ← Position.behind_after hline]
    exact ⟨rfl, rfl, rfl, one_le_after_line hline _⟩

namespace Scanner

variable {s other : Scanner} {position : Position} {text gap : List Char}

/-- From another place the scanner gives the same tokens and meets the same fault, each at its
    place. -/
theorem Ready.drain_behind {base p : Position} (hline : 1 ≤ p.line)
    (h : s.Ready (base.behind p) text) (hother : other.Ready p text) :
    s.drain.1 = other.drain.1.map (·.behind base) ∧
      s.drain.2.1 = other.drain.2.1.map (·.behind base) := by
  fun_induction drain other generalizing s p text with
  | case1 other hend => simp [hother.opened] at hend
  | case2 other _ token after hnext tokens fault last hafter ih =>
    have hlook := look_of_next_ok hnext
    rw [hother.working, hother.pending] at hlook
    obtain ⟨hfound, hreached, hleft⟩ := hlook
    obtain ⟨houtcome, hreached', hleft', hline'⟩ :=
      look_behind hline base other.spelling s.spelling text
    rw [hfound, ← h.working, ← h.pending] at houtcome
    obtain ⟨far, hfar, hfarReached, hfarLeft, hfarEnd⟩ := next_of_look h.opened houtcome
    rw [h.working, h.pending] at hfarReached hfarLeft
    rw [hafter] at ih
    rw [drain_of_next_ok hfar]
    have hend := next_terminated hnext
    by_cases hkind : token.kind = .endOfFile
    · rw [drain_of_terminated (by simp [hend, hkind])] at hafter
      rw [drain_of_terminated (hfarEnd.trans (decide_eq_true hkind))]
      cases hafter
      exact ⟨rfl, rfl⟩
    · have hready : far.Ready (base.behind after.working) after.pending :=
        ⟨hfarEnd.trans (decide_eq_false hkind), by rw [hfarReached, hreached', hreached],
          by rw [hfarLeft, hleft', hleft]⟩
      obtain ⟨htokens, hfault⟩ := ih (hreached ▸ hline') hready
        ⟨hend.trans (decide_eq_false hkind), rfl, rfl⟩
      exact ⟨congrArg _ htokens, hfault⟩
  | case3 other _ e after hnext =>
    obtain ⟨cause, rfl⟩ := lexical_of_next_error hother.opened (congrArg Prod.fst hnext)
    have hlook := (look_of_next_error hnext).1
    rw [hother.working, hother.pending] at hlook
    have houtcome := (look_behind hline base other.spelling s.spelling text).1
    rw [hlook, ← h.working, ← h.pending] at houtcome
    obtain ⟨far, hfar, -⟩ := next_of_look_error h.opened houtcome
    rw [drain_of_next_error h.opened hfar]
    exact ⟨rfl, rfl⟩

/-- A gap makes no difference to the tokens behind it. -/
theorem Ready.drain_gap (h : s.Ready position (gap ++ text)) (hgap : IsGap gap) :
    ∃ after : Scanner, after.Ready (position.after gap) text ∧ s.drain = after.drain := by
  obtain ⟨last, hlook⟩ := look_append_gap hgap position s.spelling text
  let after : Scanner :=
    { working := position.after gap, pending := text, spelling := last }
  have hnext : s.next = after.next := by
    simp only [Scanner.next, h.opened, h.working, h.pending, hlook]
    rfl
  refine ⟨after, ⟨rfl, rfl, rfl⟩, ?_⟩
  rcases hfound : s.next with ⟨e | token, final⟩
  · rw [drain_of_next_error h.opened hfound,
      drain_of_next_error (s := after) rfl (hnext.symm.trans hfound)]
  · rw [drain_of_next_ok hfound, drain_of_next_ok (s := after) (hnext.symm.trans hfound)]

end Scanner

theorem IsLexeme.not_isGapChar {lexeme : String} (hlexeme : IsLexeme lexeme) :
    ∀ c ∈ lexeme.toList, isGapChar c = false := by
  have hword : ∀ c, isWordChar c = true → isGapChar c = false := by
    intro c hc
    by_contra hgap
    rw [Bool.not_eq_false] at hgap
    have hdelimiter : isDelimiter c = true := by simp [isDelimiter, hgap]
    rw [not_isWordChar_of_isDelimiter hdelimiter] at hc
    cases hc
  have hsigns : ∀ text ∈ signs, text.toList.all (fun c => !isGapChar c) = true := by decide
  intro c hc
  rcases hlexeme with h | h | h
  · exact hword c (h.chars c hc)
  · exact hword c (by simp [isWordChar, h.digits c hc])
  · simpa using List.all_eq_true.mp (hsigns lexeme h) c hc

theorem Divided.exists_front {text ending : List Char} {pieces : List (List Char × String)}
    (h : Divided text pieces ending) : ∃ front, text = front ++ ending := by
  induction h with
  | ending => exact ⟨[], rfl⟩
  | @piece gap rest ending lexeme pieces _ _ _ _ ih =>
    obtain ⟨front, rfl⟩ := ih
    exact ⟨gap ++ lexeme.toList ++ front, by simp⟩

/-- A text that ends in a blank has a gap behind its last lexeme. -/
theorem Divided.ending_ne_nil {text ending : List Char} {pieces : List (List Char × String)}
    {c : Char} (h : Divided text pieces ending) (hlast : text.getLast? = some c)
    (hblank : isGapChar c = true) : ending ≠ [] := by
  induction h with
  | ending =>
    rintro rfl
    cases hlast
  | @piece gap rest ending lexeme pieces hgap hlexeme hbounded hrest ih =>
    cases rest with
    | nil =>
      -- the last character is one of the lexeme
      obtain ⟨kind, hspells⟩ := isLexeme_iff_spells.mp hlexeme
      have hne := hspells.toList_ne_nil
      rw [List.append_nil, List.getLast?_append_of_ne_nil _ hne] at hlast
      rw [hlexeme.not_isGapChar c (List.mem_of_getLast? hlast)] at hblank
      cases hblank
    | cons d rest =>
      rw [List.getLast?_append_of_ne_nil _ (by simp),
        List.getLast?_append_of_ne_nil _ (List.cons_ne_nil d rest)] at hlast
      exact ih hlast

namespace Scanner

/-- Before a text with a gap at its end, more text makes no difference to its tokens. -/
theorem drain_divided_append {text ending : List Char} {pieces : List (List Char × String)}
    (h : Divided text pieces ending) (hends : pieces = [] ∨ ending ≠ []) (position : Position) :
    ∃ tokens : List Token,
      (∀ s : Scanner, s.Ready position text → ∃ eof, s.drain.1 = tokens ++ [eof]) ∧
      ∀ (more : List Char) (s : Scanner), s.Ready position (text ++ more) →
        ∃ left : Scanner, left.Ready (position.after text) more ∧
          s.drain = (tokens ++ left.drain.1, left.drain.2) := by
  induction h generalizing position with
  | ending hgap =>
    refine ⟨[], fun s hs => ?_, fun more s hs => ?_⟩
    · obtain ⟨last, hdrain⟩ := hs.drain_end hgap
      exact ⟨_, by rw [hdrain]; rfl⟩
    · obtain ⟨left, hleft, hdrain⟩ := hs.drain_gap hgap
      exact ⟨left, hleft, hdrain⟩
  | @piece gap rest ending lexeme pieces hgap hlexeme hbounded hrest ih =>
    have hne : ending ≠ [] := hends.resolve_left (by simp)
    obtain ⟨kind, hspells⟩ := isLexeme_iff_spells.mp hlexeme
    obtain ⟨tokens, halone, hmore⟩ := ih (.inr hne) (position.after (gap ++ lexeme.toList))
    refine ⟨⟨kind, tokenValue kind lexeme, position.after gap⟩ :: tokens, fun s hs => ?_,
      fun more s hs => ?_⟩
    · obtain ⟨after, hnext, hafter⟩ := hs.next hgap hspells hbounded
      obtain ⟨eof, hdrain⟩ := halone after hafter
      exact ⟨eof, by rw [drain_of_next_ok hnext, hdrain]; rfl⟩
    · have hsplit : gap ++ (lexeme.toList ++ rest) ++ more =
          gap ++ (lexeme.toList ++ (rest ++ more)) := by simp
      -- the lexeme ends where it did, because something follows it
      have hstill : Bounded lexeme (rest ++ more) := by
        cases rest with
        | nil => exact absurd (List.append_eq_nil_iff.mp hrest.exists_front.choose_spec.symm).2 hne
        | cons d rest => exact ⟨hbounded.delimited, hbounded.uncommented⟩
      obtain ⟨after, hnext, hafter⟩ := (hsplit ▸ hs).next hgap hspells hstill
      obtain ⟨left, hleft, hdrain⟩ := hmore more after hafter
      rw [Position.after_after] at hleft
      refine ⟨left, by simpa using hleft, ?_⟩
      rw [drain_of_next_ok hnext, hdrain]
      rfl

/-- The scanner gives the tokens of a text, skips the comment behind it, and gives the tokens of
    what follows or meets the fault in it, each at its place. -/
def SkipsComment (before inside rest : String) : Prop :=
  (ofText (before ++ "(*" ++ inside ++ "*)" ++ rest)).drain.1 =
      (ofText before).drain.1.dropLast ++
        (ofText rest).drain.1.map (·.behind (.after {} (before ++ "(*" ++ inside ++ "*)").toList)) ∧
    (ofText (before ++ "(*" ++ inside ++ "*)" ++ rest)).drain.2.1 =
      (ofText rest).drain.2.1.map (·.behind (.after {} (before ++ "(*" ++ inside ++ "*)").toList))

/-- The scanner gives the tokens of a text, and reports that the comment behind it does not end. It
    has then come to the end, and stands where the comment starts. -/
def LeavesOpen (before inside : String) : Prop :=
  ∃ last : Scanner, (ofText (before ++ "(*" ++ inside)).drain =
      ((ofText before).drain.1.dropLast,
        some (.lexical ⟨.unterminatedComment, .after {} (before ++ "(*" ++ inside).toList⟩), last) ∧
    last.position = .after {} before.toList

/-- Where a text ends, all its lexemes have ended, whatever follows. -/
structure EndsApart (text : String) : Prop where
  scans : (ofText text).drain.2.1 = none
  blank : text = "" ∨ ∃ c, text.toList.getLast? = some c ∧ isGapChar c = true

variable {before inside rest : String}

/-- The tokens of a text that ends apart come first, and the scanner goes on behind it. -/
theorem EndsApart.exists_left (h : EndsApart before) {text : String} {more : List Char}
    (htext : text.toList = before.toList ++ more) :
    ∃ left : Scanner, left.Ready (.after {} before.toList) more ∧
      (ofText text).drain = ((ofText before).drain.1.dropLast ++ left.drain.1, left.drain.2) := by
  obtain ⟨pieces, ending, hdivided⟩ := divided_of_drain rfl h.scans
  have hends : pieces = [] ∨ ending ≠ [] := by
    rcases h.blank with rfl | ⟨c, hlast, hblank⟩
    · exact .inl (hdivided.unique (.ending .nil)).1
    · exact .inr (hdivided.ending_ne_nil hlast hblank)
  obtain ⟨tokens, halone, hmore⟩ := drain_divided_append hdivided hends {}
  obtain ⟨eof, htokens⟩ := halone _ (ready_ofText before)
  rw [htokens, List.dropLast_concat]
  have hready := ready_ofText text
  rw [htext] at hready
  exact hmore more _ hready

theorem EndsApart.skipsComment (h : EndsApart before) (hinside : IsCommentBody inside.toList) :
    SkipsComment before inside rest := by
  have hgap : IsGap ('(' :: '*' :: (inside.toList ++ '*' :: ')' :: [])) := .comment hinside .nil
  have htext : (before ++ "(*" ++ inside ++ "*)" ++ rest).toList = before.toList ++
      ('(' :: '*' :: (inside.toList ++ '*' :: ')' :: []) ++ rest.toList) := by
    simp [String.toList_append]
  have hbase : (before ++ "(*" ++ inside ++ "*)").toList =
      before.toList ++ '(' :: '*' :: (inside.toList ++ '*' :: ')' :: []) := by
    simp [String.toList_append]
  obtain ⟨left, hleft, hdrain⟩ := h.exists_left htext
  obtain ⟨after, hafter, hsame⟩ := hleft.drain_gap hgap
  rw [Position.after_after, ← hbase, ← Position.behind_start (Position.after _ _)] at hafter
  obtain ⟨htokens, hfault⟩ := hafter.drain_behind (by decide) (ready_ofText rest)
  rw [SkipsComment, hdrain, hsame, htokens, hfault]
  exact ⟨rfl, rfl⟩

theorem EndsApart.leavesOpen (h : EndsApart before)
    (hinside : (readComment inside.toList).2 = none) : LeavesOpen before inside := by
  have htext : (before ++ "(*" ++ inside).toList =
      before.toList ++ '(' :: '*' :: inside.toList := by
    simp [String.toList_append]
  have htaken : (readComment inside.toList).1 = inside.toList := by
    have happend := readComment_append inside.toList
    rwa [hinside, Option.getD_none, List.append_nil] at happend
  have hread : readPiece '(' ('*' :: inside.toList) =
      ⟨.fault .unterminatedComment, '(' :: '*' :: inside.toList, []⟩ := by
    have hparen : readPiece '(' ('*' :: inside.toList) = readParen ('*' :: inside.toList) := rfl
    have hpair : readComment inside.toList = (inside.toList, none) := Prod.ext htaken hinside
    rw [hparen, readParen, hpair]
  obtain ⟨left, hleft, hdrain⟩ := h.exists_left htext
  have hpiece := congrArg Reading.piece hread
  have hlook := look_of_fault left.working left.spelling hpiece
  rw [hread] at hlook
  have hfault : (look left.working left.spelling left.pending).outcome =
      .error ⟨.unterminatedComment, left.working.after ('(' :: '*' :: inside.toList)⟩ := by
    rw [hleft.pending, hlook]
  obtain ⟨after, hnext, hposition⟩ := next_of_look_error hleft.opened hfault
  rw [hleft.pending, hlook] at hposition
  refine ⟨after, ?_, hposition.trans hleft.working⟩
  rw [hdrain, drain_of_next_error hleft.opened hnext, List.append_nil, hleft.working,
    Position.after_after, htext]

/-- A comment that is reported does not end. -/
theorem EndsApart.of_leavesOpen (h : EndsApart before) (hopen : LeavesOpen before inside) :
    (readComment inside.toList).2 = none := by
  obtain ⟨last, hlast, hposition⟩ := hopen
  by_contra hends
  obtain ⟨rest, hrest⟩ := Option.ne_none_iff_exists'.mp hends
  obtain ⟨body, hbody, htaken⟩ := exists_body_of_readComment hrest
  have hinside := readComment_append inside.toList
  rw [htaken, hrest, Option.getD_some, List.append_assoc] at hinside
  have htext : (before ++ "(*" ++ inside).toList =
      before.toList ++ ('(' :: '*' :: (body ++ '*' :: ')' :: []) ++ rest) := by
    simp [String.toList_append, ← hinside]
  obtain ⟨left, hleft, hdrain⟩ := h.exists_left htext
  obtain ⟨after, hafter, hsame⟩ := hleft.drain_gap (.comment hbody .nil)
  rw [hdrain, hsame] at hlast
  obtain ⟨htokens, hfault⟩ := Prod.mk.inj hlast
  -- the fault is met behind the comment
  rcases hnext : after.next with ⟨e | token, final⟩
  · rw [drain_of_next_error hafter.opened hnext] at hfault
    cases hfault
    obtain ⟨gap, -, -, hstart, -⟩ := look_passes after.working after.spelling after.pending
    rw [(look_of_next_error hnext).2, hstart, hafter.working] at hposition
    have hoffset := congrArg Position.offset hposition
    simp only [Position.after_offset, List.length_cons] at hoffset
    omega
  · rw [drain_of_next_ok hnext] at htokens
    simp at htokens

end Scanner

/-- The star and parenthesis behind a text are the first ones with an even number of stars before
    them. -/
def ClosesComment (inside : String) : Prop :=
  Even (trailingStars inside.toList) ∧
    ∀ front rest : String, inside ++ "*)" = front ++ "*)" ++ rest → rest ≠ "" →
      ¬ Even (trailingStars front.toList)

theorem append_closing_iff {text front rest : String} :
    text = front ++ "*)" ++ rest ↔ text.toList = front.toList ++ '*' :: ')' :: rest.toList := by
  rw [← String.toList_inj]
  simp [String.toList_append]

theorem closesComment_iff {inside : String} :
    ClosesComment inside ↔ IsCommentBody inside.toList := by
  rw [isCommentBody_iff]
  refine and_congr_right fun _ =>
    ⟨fun h front rest hsplit hne => ?_, fun h front rest hsplit hne => ?_⟩
  · have hfront := h (.ofList front) (.ofList rest)
      (append_closing_iff.mpr (by simpa [String.toList_append] using hsplit)) (by simpa using hne)
    rwa [String.toList_ofList] at hfront
  · have htext := append_closing_iff.mp hsplit
    rw [String.toList_append] at htext
    exact h front.toList rest.toList htext (by simpa using hne)

namespace Scanner

variable {before inside : String}

theorem EndsApart.leavesOpen_iff (h : EndsApart before) :
    LeavesOpen before inside ↔
      ∀ front rest : String, inside = front ++ "*)" ++ rest →
        ¬ Even (trailingStars front.toList) := by
  have hopen : LeavesOpen before inside ↔ (readComment inside.toList).2 = none :=
    ⟨h.of_leavesOpen, h.leavesOpen⟩
  rw [hopen, readComment_eq_none_iff]
  refine ⟨fun hnone front rest hsplit => hnone _ _ (append_closing_iff.mp hsplit),
    fun hnone front rest hsplit => ?_⟩
  have hfront := hnone (.ofList front) (.ofList rest)
    (append_closing_iff.mpr (by simpa using hsplit))
  rwa [String.toList_ofList] at hfront

/-- If nothing but the star and parenthesis behind a text can close a comment, then they do so
    whatever follows if and only if the text ends in an even number of stars. -/
theorem EndsApart.skipsComment_iff (h : EndsApart before)
    (hfirst : ∀ front rest : String, inside ++ "*)" = front ++ "*)" ++ rest → rest = "") :
    (∀ rest, SkipsComment before inside rest) ↔ Even (trailingStars inside.toList) := by
  constructor
  · intro hskips
    by_contra hodd
    -- with nothing behind it the comment would not end
    obtain ⟨last, hdrain, -⟩ : LeavesOpen before (inside ++ "*)") := by
      refine h.leavesOpen_iff.mpr fun front rest hsplit => ?_
      obtain rfl := hfirst front rest hsplit
      have hsame : inside = front := by simpa using hsplit
      rwa [← hsame]
    have hfault := (hskips "").2
    obtain ⟨final, hend⟩ := (ready_ofText "").drain_end .nil
    rw [String.append_empty, String.append_assoc, hdrain, hend] at hfault
    cases hfault
  · intro heven rest
    refine h.skipsComment (closesComment_iff.mp ⟨heven, fun front more hsplit hne => ?_⟩)
    exact absurd (hfirst front more hsplit) hne

/-- Behind a text whose lexemes have ended, a comment ends at the first star and parenthesis that an
    even number of stars stands before: it is skipped, and what follows is scanned as if it stood
    alone. The comment is reported if and only if there are no such star and parenthesis. So the
    first star and parenthesis behind its opening end a comment, whatever follows them, if and only
    if an even number of stars stands before them. -/
theorem comment_ends_at_even_stars {before : String} (h : EndsApart before) :
    (∀ inside rest : String, ClosesComment inside → SkipsComment before inside rest) ∧
      (∀ inside : String, LeavesOpen before inside ↔
        ∀ front rest : String, inside = front ++ "*)" ++ rest →
          ¬ Even (trailingStars front.toList)) ∧
      ∀ inside : String,
        (∀ front rest : String, inside ++ "*)" = front ++ "*)" ++ rest → rest = "") →
        ((∀ rest, SkipsComment before inside rest) ↔ Even (trailingStars inside.toList)) :=
  ⟨fun _ _ hcloses => h.skipsComment (closesComment_iff.mp hcloses), fun _ => h.leavesOpen_iff,
    fun _ => h.skipsComment_iff⟩

/-- Behind an identifier, a comment with two stars before its end is skipped, also if a star and a
    parenthesis stand in it behind one star. Behind three stars they do not end a comment. -/
theorem comment_ends_at_even_stars_of_two :
    EndsApart "a " ∧ ClosesComment "**) **" ∧ SkipsComment "a " "**) **" " b" ∧
      LeavesOpen "a " " ****) b" := by
  have happart : EndsApart "a " := ⟨by decide +kernel, .inr ⟨' ', rfl, rfl⟩⟩
  have hcloses : ClosesComment "**) **" :=
    closesComment_iff.mpr (.star (by decide) (.char (by decide) (.char (by decide)
      (.star (by decide) .nil))))
  obtain ⟨hskips, hopen, -⟩ := comment_ends_at_even_stars happart
  refine ⟨happart, hcloses, hskips _ _ hcloses, (hopen _).mpr fun front rest hsplit => ?_⟩
  exact readComment_eq_none_iff.mp rfl _ _ (append_closing_iff.mp hsplit)

/-- A comment of one star is not skipped, although the first star and parenthesis behind its
    opening are those behind this star. It is reported as not ended. -/
theorem not_skipsComment_star :
    EndsApart "" ∧ (∀ front rest : String, "*" ++ "*)" = front ++ "*)" ++ rest → rest = "") ∧
      ¬ SkipsComment "" "*" "" ∧ (ofText "").drain.2.1 = none ∧
      (ofText "(***)").drain.2.1 = some (.lexical ⟨.unterminatedComment, ⟨1, 6, 5⟩⟩) := by
  have hempty : (ofText "").drain.2.1 = none := by decide +kernel
  have hfault : (ofText "(***)").drain.2.1 =
      some (.lexical ⟨.unterminatedComment, ⟨1, 6, 5⟩⟩) := by
    decide +kernel
  refine ⟨⟨hempty, .inl rfl⟩, fun front rest hsplit => ?_, fun hskips => ?_, hempty, hfault⟩
  · have htext : ['*', '*', ')'] = front.toList ++ '*' :: ')' :: rest.toList :=
      append_closing_iff.mp hsplit
    rcases star_split htext with ⟨hclose, -⟩ | hfront | ⟨front', -, hlast⟩
    · exact absurd hclose (by decide)
    · simpa [hfront] using htext
    · have hlength := congrArg List.length hlast
      simp at hlength
      omega
  · have hnone := hskips.2
    rw [hempty] at hnone
    cases hfault.symm.trans hnone

end Scanner

end Klein
