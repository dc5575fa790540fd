import Klein.Proofs.Scanner.Ahead
import Klein.Proofs.Scanner.Reading

namespace Klein

namespace Position

theorem after_after (position : Position) (text rest : List Char) :
    (position.after text).after rest = position.after (text ++ rest) := by
  rw [after, after, after, List.foldl_append]

theorem after_offset (position : Position) (text : List Char) :
    (position.after text).offset = position.offset + text.length := by
  induction text generalizing position with
  | nil => simp [after]
  | cons c text ih =>
    have hchar : (position.afterChar c).offset = position.offset + 1 := by
      unfold afterChar
      split <;> rfl
    have hrest : position.after (c :: text) = (position.afterChar c).after text := rfl
    rw [hrest, ih, hchar, List.length_cons]
    omega

theorem offset_after_start (text : List Char) : (after {} text).offset = text.length := by
  rw [after_offset]
  exact Int.zero_add _

end Position

theorem look_of_gap {c : Char} {cs : List Char} (position : Position) (spelling : String)
    (hpiece : (readPiece c cs).piece = .gap) :
    look position spelling (c :: cs) = look (position.after (readPiece c cs).taken)
      (String.ofList (readPiece c cs).taken) (readPiece c cs).rest := by
  rw [look]
  split <;> simp_all

theorem look_of_lexeme {c : Char} {cs : List Char} {kind : Kind} (position : Position)
    (spelling : String) (hpiece : (readPiece c cs).piece = .lexeme kind) :
    look position spelling (c :: cs) =
      { outcome := .ok ⟨kind, tokenValue kind (String.ofList (readPiece c cs).taken), position⟩
        start := position
        startText := c :: cs
        reached := position.after (readPiece c cs).taken
        reachedText := (readPiece c cs).rest
        spelling := String.ofList (readPiece c cs).taken } := by
  rw [look]
  split <;> simp_all

theorem look_of_fault {c : Char} {cs : List Char} {fault : LexicalFault} (position : Position)
    (spelling : String) (hpiece : (readPiece c cs).piece = .fault fault) :
    look position spelling (c :: cs) =
      { outcome := .error ⟨fault, position.after (readPiece c cs).taken⟩
        start := position
        startText := c :: cs
        reached := position.after (readPiece c cs).taken
        reachedText := (readPiece c cs).rest
        spelling := String.ofList (readPiece c cs).taken } := by
  rw [look]
  split <;> simp_all

/-- The scanner passes over a gap. -/
theorem look_append_gap {gap : List Char} (hgap : IsGap gap) (position : Position)
    (spelling : String) (rest : List Char) :
    ∃ last, look position spelling (gap ++ rest) = look (position.after gap) last rest := by
  induction hgap generalizing position spelling with
  | nil => exact ⟨spelling, rfl⟩
  | @blank c cs hblank _ ih =>
    have hread : readPiece c (cs ++ rest) = ⟨.gap, [c], cs ++ rest⟩ := by
      simp only [List.mem_cons, List.not_mem_nil, or_false] at hblank
      rcases hblank with rfl | rfl | rfl | rfl
      all_goals rfl
    obtain ⟨last, hlook⟩ := ih (position.after [c]) (String.ofList [c])
    refine ⟨last, ?_⟩
    rw [List.cons_append, look_of_gap _ _ (by rw [hread]), hread, hlook, Position.after_after,
      List.singleton_append]
  | @comment body cs hbody _ ih =>
    have hread : readPiece '(' ('*' :: (body ++ '*' :: ')' :: (cs ++ rest))) =
        ⟨.gap, '(' :: '*' :: (body ++ ['*', ')']), cs ++ rest⟩ := by
      have hparen : readPiece '(' ('*' :: (body ++ '*' :: ')' :: (cs ++ rest))) =
          readParen ('*' :: (body ++ '*' :: ')' :: (cs ++ rest))) := rfl
      rw [hparen, readParen, readComment_of_body hbody]
    obtain ⟨last, hlook⟩ := ih (position.after ('(' :: '*' :: (body ++ ['*', ')'])))
      (String.ofList ('(' :: '*' :: (body ++ ['*', ')'])))
    refine ⟨last, ?_⟩
    have hsplit : '(' :: '*' :: (body ++ '*' :: ')' :: cs) ++ rest =
        '(' :: ('*' :: (body ++ '*' :: ')' :: (cs ++ rest))) := by simp
    rw [hsplit, look_of_gap _ _ (by rw [hread]), hread, hlook, Position.after_after]
    simp

/-- What stands in a text for a token: its value, or else the spelling of its kind. Nothing stands
    for the end of the text. -/
def Token.spelling (token : Token) : String :=
  token.value.getD (token.kind.spelling?.getD "")

theorem Kind.Spells.token_spelling {kind : Kind} {text : String} (hspells : kind.Spells text)
    (position : Position) : (⟨kind, tokenValue kind text, position⟩ : Token).spelling = text := by
  cases kind with
  | identifier | integer | boolean => rfl
  | endOfFile => cases hspells
  | _ =>
    cases hspells
    rfl

/-- What is known of a token that the scanner finds: it stands where its spelling starts, behind a
    gap, and its spelling ends where the scanner has come to. -/
structure Found (position : Position) (text : List Char) (sighting : Sighting) (token : Token)
    (gap : List Char) : Prop where
  isGap : IsGap gap
  text_eq : text = gap ++ (token.spelling.toList ++ sighting.reachedText)
  spells : token.kind ≠ .endOfFile → token.kind.Spells token.spelling
  bounded : token.kind ≠ .endOfFile → Bounded token.spelling sighting.reachedText
  ends : token.kind = .endOfFile → token.spelling = "" ∧ sighting.reachedText = []
  value : token.value = tokenValue token.kind token.spelling
  place : token.position = position.after gap
  reached : sighting.reached = position.after (gap ++ token.spelling.toList)

theorem look_found {position : Position} {spelling : String} {text : List Char} {token : Token}
    (hlook : (look position spelling text).outcome = .ok token) :
    ∃ gap, Found position text (look position spelling text) token gap := by
  fun_induction look position spelling text with
  | case1 position spelling =>
    injection hlook with htoken
    subst htoken
    exact ⟨[], .nil, rfl, fun hkind => absurd rfl hkind, fun hkind => absurd rfl hkind,
      fun _ => ⟨rfl, rfl⟩, rfl, rfl, rfl⟩
  | case2 position spelling c cs reading reached spelling' hpiece ih =>
    obtain ⟨gap, hfound⟩ := ih hlook
    have happend : reading.taken ++ reading.rest = c :: cs := readPiece_append c cs
    refine ⟨reading.taken ++ gap, (isGap_of_readPiece hpiece).append hfound.isGap, ?_,
      hfound.spells, hfound.bounded, hfound.ends, hfound.value, ?_, ?_⟩
    · rw [List.append_assoc, ← hfound.text_eq, happend]
    · rw [hfound.place, Position.after_after]
    · rw [hfound.reached, Position.after_after, List.append_assoc]
  | case3 position spelling c cs reading reached spelling' kind hpiece =>
    have hspells : kind.Spells spelling' := readPiece_spells hpiece
    have htaken : spelling'.toList = reading.taken := String.toList_ofList
    injection hlook with htoken
    subst htoken
    refine ⟨[], .nil, ?_, fun _ => ?_, fun _ => ?_, fun hend => ?_, ?_, rfl, ?_⟩
    · rw [hspells.token_spelling, htaken]
      exact (readPiece_append c cs).symm
    · rw [hspells.token_spelling]
      exact hspells
    · rw [hspells.token_spelling]
      exact bounded_of_readPiece hpiece
    · exact absurd hend (readPiece_lexeme_ne_endOfFile hpiece)
    · rw [hspells.token_spelling]
    · rw [hspells.token_spelling, htaken]
      rfl
  | case4 => cases hlook

/-- Where the scanner finds the end of the text, it has passed over a gap only. -/
theorem Found.text_of_end {position : Position} {text gap : List Char} {sighting : Sighting}
    {token : Token} (h : Found position text sighting token gap) (hend : token.kind = .endOfFile) :
    text = gap := by
  rw [h.text_eq, (h.ends hend).1, (h.ends hend).2]
  exact List.append_nil gap

/-- A text divided into pieces: gaps and lexemes in turn, and a gap at the end. -/
inductive Divided : List Char → List (List Char × String) → List Char → Prop
  | ending {gap : List Char} : IsGap gap → Divided gap [] gap
  | piece {gap rest ending : List Char} {lexeme : String} {pieces : List (List Char × String)} :
      IsGap gap → IsLexeme lexeme → Bounded lexeme rest → Divided rest pieces ending →
      Divided (gap ++ (lexeme.toList ++ rest)) ((gap, lexeme) :: pieces) ending

/-- The lexemes of some pieces that follow a text, each with the text before it. -/
def places (before : List Char) : List (List Char × String) → List (List Char × String)
  | [] => []
  | (gap, lexeme) :: pieces =>
    (before ++ gap, lexeme) :: places (before ++ gap ++ lexeme.toList) pieces

/-- A token is that of a lexeme at its place. -/
structure Token.StandsFor (token : Token) (place : List Char × String) : Prop where
  kind : ∀ kind : Kind, kind.Spells place.2 ↔ kind = token.kind
  value : token.value =
    if token.kind ∈ [.identifier, .boolean, .integer] then some place.2 else none
  position : token.position = Position.after {} place.1
  offset : token.position.offset = place.1.length

theorem standsFor_of_spells {kind : Kind} {lexeme : String} (hspells : kind.Spells lexeme)
    (before : List Char) :
    (⟨kind, tokenValue kind lexeme, Position.after {} before⟩ : Token).StandsFor
      (before, lexeme) := by
  refine ⟨fun other => ⟨fun hother => hother.unique hspells, fun hother => hother ▸ hspells⟩, ?_,
    rfl, ?_⟩
  · cases kind <;> rfl
  · exact Position.offset_after_start before

/-- The scanner finds the first lexeme of a division. -/
theorem look_of_piece {gap rest : List Char} {lexeme : String} {kind : Kind} (hgap : IsGap gap)
    (hspells : kind.Spells lexeme) (hbounded : Bounded lexeme rest) (position : Position)
    (spelling : String) :
    look position spelling (gap ++ (lexeme.toList ++ rest)) =
      { outcome := .ok ⟨kind, tokenValue kind lexeme, position.after gap⟩
        start := position.after gap
        startText := lexeme.toList ++ rest
        reached := position.after (gap ++ lexeme.toList)
        reachedText := rest
        spelling := lexeme } := by
  obtain ⟨last, hlook⟩ := look_append_gap hgap position spelling (lexeme.toList ++ rest)
  rw [hlook, look_of_spells _ _ hspells hbounded, Position.after_after]

theorem look_of_ending {gap : List Char} (hgap : IsGap gap) (position : Position)
    (spelling : String) :
    (look position spelling gap).outcome = .ok ⟨.endOfFile, none, position.after gap⟩ ∧
      (look position spelling gap).startText = [] := by
  obtain ⟨last, hlook⟩ := look_append_gap hgap position spelling []
  rw [List.append_nil] at hlook
  rw [hlook, look]
  exact ⟨rfl, rfl⟩

/-- A text in which the scanner finds a lexeme is no gap. -/
theorem not_isGap_of_piece {gap rest : List Char} {lexeme : String} {kind : Kind}
    (hgap : IsGap gap) (hspells : kind.Spells lexeme) (hbounded : Bounded lexeme rest) :
    ¬IsGap (gap ++ (lexeme.toList ++ rest)) := by
  intro hall
  have hstart := (look_of_ending hall {} "").2
  rw [look_of_piece hgap hspells hbounded] at hstart
  exact hspells.toList_ne_nil (List.append_eq_nil_iff.mp hstart).1

/-- A text is divided in one way only. -/
theorem Divided.unique {text ending otherEnding : List Char}
    {pieces otherPieces : List (List Char × String)} (h : Divided text pieces ending)
    (hother : Divided text otherPieces otherEnding) :
    pieces = otherPieces ∧ ending = otherEnding := by
  -- the scanner finds the same lexeme at the same place, whatever the division
  induction h generalizing otherPieces otherEnding with
  | @ending text hgap =>
    cases hother with
    | ending => exact ⟨rfl, rfl⟩
    | @piece gap rest _ lexeme pieces hgap' hlexeme hbounded =>
      obtain ⟨kind, hspells⟩ := isLexeme_iff_spells.mp hlexeme
      exact absurd hgap (not_isGap_of_piece hgap' hspells hbounded)
  | @piece gap rest ending lexeme pieces hgap hlexeme hbounded hrest ih =>
    obtain ⟨kind, hspells⟩ := isLexeme_iff_spells.mp hlexeme
    have hlook := look_of_piece hgap hspells hbounded {} ""
    generalize htext : gap ++ (lexeme.toList ++ rest) = text at hother hlook
    cases hother with
    | ending hgap' =>
      rw [← htext] at hgap'
      exact absurd hgap' (not_isGap_of_piece hgap hspells hbounded)
    | @piece gap' rest' _ lexeme' pieces' hgap' hlexeme' hbounded' hrest' =>
      obtain ⟨kind', hspells'⟩ := isLexeme_iff_spells.mp hlexeme'
      rw [look_of_piece hgap' hspells' hbounded'] at hlook
      injection hlook with _ _ hstart _ hreached hlast
      subst hreached hlast
      obtain rfl : gap = gap' := List.append_cancel_right htext
      obtain ⟨rfl, rfl⟩ := ih hrest'
      exact ⟨rfl, rfl⟩

namespace Scanner

/-- A scanner that is to scan a text from a place on. -/
structure Ready (s : Scanner) (position : Position) (text : List Char) : Prop where
  opened : s.terminated = false
  working : s.working = position
  pending : s.pending = text

theorem ready_ofText (text : String) : (ofText text).Ready {} text.toList :=
  ⟨rfl, rfl, rfl⟩

variable {s : Scanner} {position : Position} {text gap rest : List Char}

/-- The scanner gives the lexeme that comes next behind a gap. -/
theorem Ready.next {lexeme : String} {kind : Kind} (hgap : IsGap gap)
    (hspells : kind.Spells lexeme) (hbounded : Bounded lexeme rest)
    (h : s.Ready position (gap ++ (lexeme.toList ++ rest))) :
    ∃ after, s.next = (.ok ⟨kind, tokenValue kind lexeme, position.after gap⟩, after) ∧
      after.Ready (position.after (gap ++ lexeme.toList)) rest := by
  have hlook := look_of_piece hgap hspells hbounded position s.spelling
  rw [← h.pending, ← h.working] at hlook
  obtain ⟨after, hnext, hreached, hleft, hend⟩ := next_of_look h.opened (by rw [hlook])
  rw [hlook] at hreached hleft
  refine ⟨after, h.working ▸ hnext, ?_, h.working ▸ hreached, hleft⟩
  rw [hend, decide_eq_false_iff_not]
  rintro rfl
  cases hspells

/-- Behind a gap at the end of a text the scanner gives the end and nothing more. -/
theorem Ready.drain_end (h : s.Ready position gap) (hgap : IsGap gap) :
    ∃ last, s.drain = ([⟨.endOfFile, none, position.after gap⟩], none, last) := by
  have hlook := (look_of_ending hgap position s.spelling).1
  rw [← h.working] at hlook
  obtain ⟨after, hnext, -, -, hend⟩ := next_of_look h.opened (h.pending ▸ hlook)
  refine ⟨after, ?_⟩
  rw [drain_of_next_ok hnext, drain_of_terminated hend, h.pending, h.working]

/-- A scanner that has a token to give gives it. -/
theorem Ready.exists_next {token : Token} {tokens : List Token} (h : s.Ready position text)
    (hdrain : s.drain.1 = token :: tokens) :
    ∃ after, s.next = (.ok token, after) ∧ s.drain = (token :: after.drain.1, after.drain.2) := by
  rcases hnext : s.next with ⟨e | found, after⟩
  · rw [drain_of_next_error h.opened hnext] at hdrain
    cases hdrain
  · have hstep := drain_of_next_ok hnext
    rw [hstep] at hdrain
    injection hdrain with hfound
    subst hfound
    exact ⟨after, rfl, hstep⟩

theorem Ready.found {after : Scanner} {token : Token} (h : s.Ready position text)
    (hnext : s.next = (.ok token, after)) :
    ∃ gap, Found position text (look position s.spelling text) token gap := by
  have hlook := (look_of_next_ok hnext).1
  rw [h.working, h.pending] at hlook
  exact look_found hlook

/-- A token that the scanner gives is that of a lexeme behind a gap, from which it goes on. -/
theorem Ready.of_next {after : Scanner} {token : Token} (h : s.Ready position text)
    (hnext : s.next = (.ok token, after)) (hkind : token.kind ≠ .endOfFile) :
    ∃ gap rest, IsGap gap ∧ token.kind.Spells token.spelling ∧ Bounded token.spelling rest ∧
      text = gap ++ (token.spelling.toList ++ rest) ∧
      token = ⟨token.kind, tokenValue token.kind token.spelling, position.after gap⟩ ∧
      after.Ready (position.after (gap ++ token.spelling.toList)) rest := by
  obtain ⟨-, hreached, hleft⟩ := look_of_next_ok hnext
  rw [h.working, h.pending] at hreached hleft
  obtain ⟨gap, hfound⟩ := h.found hnext
  have hopen := next_terminated hnext
  refine ⟨gap, _, hfound.isGap, hfound.spells hkind, hfound.bounded hkind, hfound.text_eq, ?_,
    by simpa [hkind] using hopen, ?_, hleft⟩
  · rw [← hfound.value, ← hfound.place]
  · rw [hreached, hfound.reached]

/-- Before a text that is divided, the scanner gives a token for each lexeme and then the end of
    the text. -/
theorem drain_of_divided {ending : List Char} {pieces : List (List Char × String)}
    (hdivided : Divided text pieces ending) (before : List Char)
    (h : s.Ready (Position.after {} before) text) :
    ∃ tokens final, s.drain =
        (tokens ++ [⟨.endOfFile, none, Position.after {} (before ++ text)⟩], none, final) ∧
      List.Forall₂ (fun place token => token.StandsFor place) (places before pieces) tokens := by
  induction hdivided generalizing s before with
  | @ending text hgap =>
    obtain ⟨final, hdrain⟩ := h.drain_end hgap
    rw [Position.after_after] at hdrain
    exact ⟨[], final, hdrain, .nil⟩
  | @piece gap rest ending lexeme pieces hgap hlexeme hbounded hrest ih =>
    obtain ⟨kind, hspells⟩ := isLexeme_iff_spells.mp hlexeme
    obtain ⟨after, hnext, hafter⟩ := h.next hgap hspells hbounded
    rw [Position.after_after] at hnext hafter
    obtain ⟨tokens, final, hdrain, hstands⟩ := ih _ hafter
    refine ⟨⟨kind, tokenValue kind lexeme, Position.after {} (before ++ gap)⟩ :: tokens, final,
      ?_, ?_⟩
    · rw [drain_of_next_ok hnext, hdrain]
      simp
    · rw [places, List.append_assoc]
      exact .cons (standsFor_of_spells hspells (before ++ gap)) hstands

theorem ofText_drain {text : String} {ending : List Char} {pieces : List (List Char × String)}
    (hdivided : Divided text.toList pieces ending) :
    ∃ tokens final, (ofText text).drain =
        (tokens ++ [⟨.endOfFile, none, Position.after {} text.toList⟩], none, final) ∧
      List.Forall₂ (fun place token => token.StandsFor place) (places [] pieces) tokens :=
  drain_of_divided hdivided [] (ready_ofText text)

/-- A text that the scanner comes through without a fault can be divided. -/
theorem divided_of_drain (hopen : s.terminated = false) (hdrain : s.drain.2.1 = none) :
    ∃ pieces ending, Divided s.pending pieces ending := by
  fun_induction drain s with
  | case1 s hend => simp [hopen] at hend
  | case2 s _ token after hnext tokens fault last hafter ih =>
    have h : s.Ready s.working s.pending := ⟨hopen, rfl, rfl⟩
    by_cases hkind : token.kind = .endOfFile
    · obtain ⟨gap, hfound⟩ := h.found hnext
      rw [hfound.text_of_end hkind]
      exact ⟨[], gap, .ending hfound.isGap⟩
    · obtain ⟨gap, rest, hgap, hspells, hbounded, htext, -, hleft⟩ := h.of_next hnext hkind
      rw [hafter] at ih
      obtain ⟨pieces, ending, hrest⟩ := ih hleft.opened hdrain
      rw [hleft.pending] at hrest
      rw [htext]
      exact ⟨_, ending, .piece hgap (isLexeme_iff_spells.mpr ⟨_, hspells⟩) hbounded hrest⟩
  | case3 => cases hdrain

/-- The scanner comes to the end of a text without a fault exactly when the text can be divided
    into gaps and lexemes. There is then one such division, and the tokens are those of its lexemes,
    in order, and the end of the text. How long a piece may be is not limited here, as it is where
    tokens are read within a `Nesting`. -/
theorem drain_eq_none_iff_divided (text : String) :
    ((ofText text).drain.2.1 = none ↔ ∃ pieces ending, Divided text.toList pieces ending) ∧
      ∀ pieces ending, Divided text.toList pieces ending →
        (∀ pieces' ending', Divided text.toList pieces' ending' →
          pieces' = pieces ∧ ending' = ending) ∧
        ∃ (tokens : List Token) (last : Token), (ofText text).drain.1 = tokens ++ [last] ∧
          List.Forall₂ (fun place token => token.StandsFor place) (places [] pieces) tokens ∧
          last.kind = .endOfFile ∧ last.value = none ∧
          last.position = Position.after {} text.toList ∧ last.position.offset = text.length := by
  constructor
  · constructor
    · exact divided_of_drain rfl
    · rintro ⟨pieces, ending, hdivided⟩
      obtain ⟨tokens, final, hdrain, -⟩ := ofText_drain hdivided
      rw [hdrain]
  · intro pieces ending hdivided
    refine ⟨fun pieces' ending' hother => hother.unique hdivided, ?_⟩
    obtain ⟨tokens, final, hdrain, hstands⟩ := ofText_drain hdivided
    have hoffset : (Position.after {} text.toList).offset = text.length := by
      rw [Position.after_offset, String.length_toList]
      exact Int.zero_add _
    exact ⟨tokens, _, by rw [hdrain], hstands, rfl, rfl, rfl, hoffset⟩

/-- A comment may stand between the name and the argument of a call. -/
theorem drain_call_of_divided :
    ∃ pieces ending, Divided "f(* x *)(0)".toList pieces ending ∧
      pieces.map Prod.snd = ["f", "(", "0", ")"] ∧ (ofText "f(* x *)(0)").drain.2.1 = none ∧
      ∃ (tokens : List Token) (last : Token),
        (ofText "f(* x *)(0)").drain.1 = tokens ++ [last] ∧
        List.Forall₂ (fun place token => token.StandsFor place) (places [] pieces) tokens ∧
        last.position.offset = 11 := by
  have hcomment : IsGap "(* x *)".toList :=
    .comment (.char (by decide) (.char (by decide) (.char (by decide) .nil))) .nil
  have hdivided : Divided "f(* x *)(0)".toList
      [([], "f"), ("(* x *)".toList, "("), ([], "0"), ([], ")")] [] := by
    have htext : "f(* x *)(0)".toList = [] ++ ("f".toList ++ ("(* x *)".toList ++ ("(".toList ++
        ([] ++ ("0".toList ++ ([] ++ (")".toList ++ []))))))) := by decide
    rw [htext]
    have hpieces : (IsLexeme "f" ∧ Bounded "f" "(* x *)(0)".toList) ∧
        (IsLexeme "(" ∧ Bounded "(" "0)".toList) ∧ (IsLexeme "0" ∧ Bounded "0" ")".toList) ∧
        IsLexeme ")" ∧ Bounded ")" [] := by
      decide +kernel
    obtain ⟨⟨hf, hfEnd⟩, ⟨hopen, hopenEnd⟩, ⟨hzero, hzeroEnd⟩, hclose, hcloseEnd⟩ := hpieces
    exact .piece .nil hf hfEnd (.piece hcomment hopen hopenEnd
      (.piece .nil hzero hzeroEnd (.piece .nil hclose hcloseEnd (.ending .nil))))
  obtain ⟨hscans, htokens⟩ := drain_eq_none_iff_divided "f(* x *)(0)"
  obtain ⟨-, tokens, last, hdrain, hstands, -, -, -, hoffset⟩ := htokens _ _ hdivided
  exact ⟨_, _, hdivided, rfl, hscans.mpr ⟨_, _, hdivided⟩, tokens, last, hdrain, hstands, hoffset⟩

end Scanner

end Klein
