import Klein.Proofs.Scanner.Positions

namespace Klein

namespace Scanner

/-- What a scanner can say: a token, or whether there is one to come. -/
inductive Answer
  | token (found : Token)
  | hasNext (found : Bool)
deriving DecidableEq, Repr

/-- What a scanner says to a request, or why it cannot. -/
def answer (s : Scanner) : Request → Except ScanError Answer
  | .next => s.next.1.map .token
  | .peek => s.peek.1.map .token
  | .hasNext => .ok (.hasNext s.hasNext)

/-- Some requests, each with what the scanner says to it when it has served the ones before. -/
def answers (s : Scanner) : List Request → List (Request × Except ScanError Answer)
  | [] => []
  | request :: rest => (request, s.answer request) :: (s.serve request).answers rest

variable {s t u : Scanner} {requests : List Request}

theorem serveAll_append (s : Scanner) (first second : List Request) :
    s.serveAll (first ++ second) = (s.serveAll first).serveAll second :=
  List.foldl_append

theorem answers_append (s : Scanner) (first second : List Request) :
    s.answers (first ++ second) = s.answers first ++ (s.serveAll first).answers second := by
  induction first generalizing s with
  | nil => rfl
  | cons request first ih =>
    rw [List.cons_append, answers, answers, ih, List.cons_append]
    rfl

theorem exists_ok_of_map {ε α β : Type} {result : Except ε α} {f : α → β}
    (hok : (result.map f).isOk = true) : ∃ a, result = .ok a := by
  cases result with
  | error e => cases hok
  | ok a => exact ⟨a, rfl⟩

/-- Two scanners go on in the same way: taking a token gives the same and leads to the same place,
    and both have terminated or none has. -/
structure GoesOnLike (s t : Scanner) : Prop where
  next : s.next = t.next
  terminated : s.terminated = t.terminated

namespace GoesOnLike

theorem refl (s : Scanner) : GoesOnLike s s :=
  ⟨rfl, rfl⟩

theorem trans (hst : GoesOnLike s t) (htu : GoesOnLike t u) : GoesOnLike s u :=
  ⟨hst.next.trans htu.next, hst.terminated.trans htu.terminated⟩

theorem hasNext (h : GoesOnLike s t) : s.hasNext = t.hasNext := by
  rw [Scanner.hasNext, Scanner.hasNext, h.terminated]

end GoesOnLike

/-- A scanner that has looked at a token goes on as it would have without. -/
theorem goesOnLike_peek (hok : (s.answer .peek).isOk = true) : GoesOnLike s.peek.2 s := by
  obtain ⟨token, htoken⟩ := exists_ok_of_map hok
  have hpeek : s.peek = (.ok token, s.peek.2) := Prod.ext htoken rfl
  obtain ⟨hbefore, hafter⟩ := terminated_of_peek_ok hpeek
  exact ⟨next_of_peek_ok hpeek, hafter.trans hbefore.symm⟩

/-- Scanners that go on in the same way do so under requests of which one of them is spared the
    looks, and say the same to the others. -/
theorem GoesOnLike.answers (h : GoesOnLike s t)
    (hok : ∀ answered ∈ s.answers requests, answered.2.isOk = true) :
    (s.answers requests).filter (·.1 ≠ .peek) = t.answers (requests.filter (· ≠ .peek)) ∧
      GoesOnLike (s.serveAll requests) (t.serveAll (requests.filter (· ≠ .peek))) := by
  induction requests generalizing s t with
  | nil => exact ⟨rfl, h⟩
  | cons request requests ih =>
    rw [Scanner.answers, List.forall_mem_cons] at hok
    cases request with
    | next =>
      have hafter : s.serve .next = t.serve .next := congrArg Prod.snd h.next
      have hanswer : s.answer .next = t.answer .next := by simp only [answer, h.next]
      obtain ⟨hanswers, hlike⟩ := ih (GoesOnLike.refl (t.serve .next)) (hafter ▸ hok.2)
      rw [Scanner.answers, hanswer, serveAll, List.foldl_cons, hafter]
      exact ⟨congrArg (List.cons (Request.next, t.answer .next)) hanswers, hlike⟩
    | peek =>
      -- the look is left out on one side only, and the scanners still go on in the same way
      exact ih ((goesOnLike_peek hok.1).trans h) hok.2
    | hasNext =>
      have hanswer : s.answer .hasNext = t.answer .hasNext := by simp only [answer, h.hasNext]
      obtain ⟨hanswers, hlike⟩ := ih h hok.2
      rw [Scanner.answers, hanswer]
      exact ⟨congrArg (List.cons (Request.hasNext, t.answer .hasNext)) hanswers, hlike⟩

/-- Until a token is taken a scanner goes on as before. -/
theorem goesOnLike_of_next_not_mem (hnext : .next ∉ requests)
    (hok : ∀ answered ∈ s.answers requests, answered.2.isOk = true) :
    GoesOnLike (s.serveAll requests) s := by
  induction requests generalizing s with
  | nil => exact GoesOnLike.refl s
  | cons request requests ih =>
    rw [Scanner.answers, List.forall_mem_cons] at hok
    have hrest := ih (List.not_mem_of_not_mem_cons hnext) hok.2
    cases request with
    | next => exact absurd List.mem_cons_self hnext
    | peek => exact hrest.trans (goesOnLike_peek hok.1)
    | hasNext => exact hrest

/-- If a scanner can answer all of some requests, looking leaves no trace: to the requests that are
    no looks it says what it would have said without the looks, a look gives what is taken next, and
    whether there is a token to come in the end does not depend on the looks. -/
theorem peek_leaves_no_trace (text : String) (requests : List Request)
    (hok : ∀ answered ∈ (ofText text).answers requests, answered.2.isOk = true) :
    ((ofText text).answers requests).filter (·.1 ≠ .peek) =
        (ofText text).answers (requests.filter (· ≠ .peek)) ∧
      (∀ before between after, requests = before ++ .peek :: (between ++ .next :: after) →
        .next ∉ between →
        ((ofText text).serveAll before).answer .peek =
          ((ofText text).serveAll (before ++ .peek :: between)).answer .next) ∧
      ((ofText text).serveAll requests).hasNext =
        ((ofText text).serveAll (requests.filter (· ≠ .peek))).hasNext := by
  obtain ⟨hanswers, hlike⟩ := (GoesOnLike.refl (ofText text)).answers hok
  refine ⟨hanswers, fun before between after hrequests hnext => ?_, hlike.hasNext⟩
  have hfirst : .next ∉ Request.peek :: between := by simpa using hnext
  have hokFirst : ∀ answered ∈ ((ofText text).serveAll before).answers (.peek :: between),
      answered.2.isOk = true := by
    rw [hrequests, ← List.cons_append, answers_append, answers_append] at hok
    exact fun answered hanswered => hok answered (by simp [hanswered])
  have hsame := (goesOnLike_of_next_not_mem hfirst hokFirst).next
  rw [serveAll_append, answer, answer, hsame, peek_fst]

/-- Looks at a token behind a comment, at the one after it and at the end of the text. -/
theorem peek_leaves_no_trace_call :
    ((ofText "(*\n*) f (1").answers
        [.peek, .next, .peek, .hasNext, .peek, .next, .next, .peek, .next, .hasNext]).filter
          (·.1 ≠ .peek) =
      [(.next, .ok (.token ⟨.identifier, some "f", ⟨2, 4, 6⟩⟩)), (.hasNext, .ok (.hasNext true)),
        (.next, .ok (.token ⟨.leftParen, none, ⟨2, 6, 8⟩⟩)),
        (.next, .ok (.token ⟨.integer, some "1", ⟨2, 7, 9⟩⟩)),
        (.next, .ok (.token ⟨.endOfFile, none, ⟨2, 8, 10⟩⟩)),
        (.hasNext, .ok (.hasNext false))] := by
  refine (peek_leaves_no_trace _ _ ?_).1.trans ?_
  · decide +kernel
  · decide +kernel

end Scanner

theorem Piece.ofKind_ne_fault {kind : Except LexicalFault Kind} {fault : LexicalFault}
    (hkind : kind ≠ .error fault) : Piece.ofKind kind ≠ .fault fault := by
  cases kind with
  | ok k => exact nofun
  | error e => exact fun hfault => hkind (congrArg _ (Piece.fault.inj hfault))

section IllegalCharacter

variable {c d : Char}

theorem wordKind_ne_illegalCharacter (text : String) :
    wordKind text ≠ .error (.illegalCharacter d) := by
  unfold wordKind
  split
  · simp
  · split <;> simp

theorem integerKind_ne_illegalCharacter (text : String) :
    integerKind text ≠ .error (.illegalCharacter d) := by
  unfold integerKind
  split
  · simp
  · split <;> simp

theorem operatorKind_ne_illegalCharacter (text : String) :
    operatorKind text ≠ .error (.illegalCharacter d) := by
  unfold operatorKind
  split <;> simp

theorem punctuationKind_ne_illegalCharacter (text : String) :
    punctuationKind text ≠ .error (.illegalCharacter d) := by
  unfold punctuationKind
  split <;> simp

theorem readWord_ne_illegalCharacter (text : List Char) :
    (readWord text).piece ≠ .fault (.illegalCharacter d) := by
  dsimp only [readWord]
  split
  · exact Piece.ofKind_ne_fault (wordKind_ne_illegalCharacter _)
  · split
    · exact Piece.ofKind_ne_fault (wordKind_ne_illegalCharacter _)
    · simp

theorem readInteger_ne_illegalCharacter (text : List Char) :
    (readInteger text).piece ≠ .fault (.illegalCharacter d) := by
  dsimp only [readInteger]
  split
  · exact Piece.ofKind_ne_fault (integerKind_ne_illegalCharacter _)
  · split
    · exact Piece.ofKind_ne_fault (integerKind_ne_illegalCharacter _)
    · simp

theorem readZero_ne_illegalCharacter (rest : List Char) :
    (readZero rest).piece ≠ .fault (.illegalCharacter d) := by
  dsimp only [readZero]
  split
  · simp
  · split
    · simp
    · split <;> simp

theorem readParen_ne_illegalCharacter (rest : List Char) :
    (readParen rest).piece ≠ .fault (.illegalCharacter d) := by
  fun_cases readParen rest <;> simp

/-- A character that starts no piece is not passed. It is met only where a piece would start. -/
theorem readPiece_of_illegalCharacter {cs : List Char}
    (hpiece : (readPiece c cs).piece = .fault (.illegalCharacter d)) :
    readPiece c cs = ⟨.fault (.illegalCharacter c), [], c :: cs⟩ := by
  revert hpiece
  fun_cases readPiece c cs with
  | case1 => exact fun hpiece => absurd hpiece (readWord_ne_illegalCharacter _)
  | case2 => exact fun hpiece => absurd hpiece (readZero_ne_illegalCharacter _)
  | case3 => exact fun hpiece => absurd hpiece (readInteger_ne_illegalCharacter _)
  | case4 =>
    exact fun hpiece =>
      absurd hpiece (Piece.ofKind_ne_fault (operatorKind_ne_illegalCharacter _))
  | case5 => exact fun hpiece => absurd hpiece (readParen_ne_illegalCharacter _)
  | case6 =>
    intro hpiece
    cases hpiece
  | case7 =>
    exact fun hpiece =>
      absurd hpiece (Piece.ofKind_ne_fault (punctuationKind_ne_illegalCharacter _))
  | case8 => exact fun _ => rfl

end IllegalCharacter

/-- A fault is told of at the place that was reached. Unless it is a character that starts no piece,
    some text has been passed. -/
theorem look_error {position : Position} {spelling : String} {text : List Char} {e : LexicalError}
    (hlook : (look position spelling text).outcome = .error e) :
    e.position = (look position spelling text).reached ∧
      ((∃ c, e.fault = .illegalCharacter c) ∧
          (look position spelling text).start = (look position spelling text).reached ∧
          (look position spelling text).startText = (look position spelling text).reachedText ∨
        (∀ c, e.fault ≠ .illegalCharacter c) ∧
          (look position spelling text).reachedText.length < text.length) := by
  fun_induction look position spelling text with
  | case1 => cases hlook
  | case2 position spelling c cs reading reached spelling' hpiece ih =>
    have hlt : reading.rest.length < (c :: cs).length :=
      readPiece_rest_length_lt (by simp only [reading] at hpiece; simp [hpiece])
    obtain ⟨hplace, hillegal | ⟨hlegal, hpassed⟩⟩ := ih hlook
    · exact ⟨hplace, .inl hillegal⟩
    · exact ⟨hplace, .inr ⟨hlegal, Nat.lt_trans hpassed hlt⟩⟩
  | case3 => cases hlook
  | case4 position spelling c cs reading reached spelling' fault hpiece =>
    cases hlook
    refine ⟨rfl, ?_⟩
    by_cases hillegal : ∃ d, fault = .illegalCharacter d
    · obtain ⟨d, rfl⟩ := hillegal
      have hread : reading = ⟨.fault (.illegalCharacter c), [], c :: cs⟩ :=
        readPiece_of_illegalCharacter hpiece
      refine .inl ⟨⟨d, rfl⟩, ?_, ?_⟩
      · simp only [reached, hread]
        rfl
      · simp only [hread]
    · rw [not_exists] at hillegal
      refine .inr ⟨hillegal, readPiece_rest_length_lt fun hfault => ?_⟩
      exact hillegal c (Piece.fault.inj (hpiece.symm.trans hfault))

namespace LexicalFault

theorem take_two_append {front rest : String} (hlength : 2 ≤ front.length) :
    (front ++ rest).toList.take 2 = front.toList.take 2 := by
  rw [← String.length_toList] at hlength
  rw [String.toList_append, List.take_append_of_le_length hlength]

/-- The message of a fault tells whether it is a character that starts no piece. -/
theorem take_two_message (fault : LexicalFault) :
    fault.message.toList.take 2 = ['I', 'l'] ↔ ∃ c, fault = illegalCharacter c := by
  cases fault with
  | illegalCharacter c =>
    refine iff_of_true ?_ ⟨c, rfl⟩
    dsimp only [message]
    rw [String.append_assoc, take_two_append (by decide)]
    decide
  | characterInWord c =>
    refine iff_of_false ?_ nofun
    dsimp only [message]
    rw [String.append_assoc, String.append_assoc, take_two_append (by decide)]
    decide
  | wordTooLong | leadingZero | integerOutOfRange | unterminatedComment =>
    exact iff_of_false (by decide +kernel) nofun
  | characterInInteger | illegalInteger | unknownOperator | unknownPunctuation =>
    refine iff_of_false ?_ nofun
    dsimp only [message]
    rw [String.append_assoc, take_two_append (by decide)]
    decide

end LexicalFault

/-- Looking on from where a fault was met comes to a fault of the same place and message only at a
    character that starts no piece. -/
theorem look_fails_again_iff {position : Position} {spelling : String} {text : List Char}
    {e : LexicalError} (hlook : (look position spelling text).outcome = .error e) :
    (∃ again, (look (look position spelling text).reached (look position spelling text).spelling
          (look position spelling text).reachedText).outcome = .error again ∧
        again.position = e.position ∧ again.fault.message = e.fault.message) ↔
      ∃ c, e.fault = .illegalCharacter c := by
  obtain ⟨hplace, hfound⟩ := look_error hlook
  constructor
  · rintro ⟨again, hagain, hposition, hmessage⟩
    obtain ⟨hreached, ⟨hillegal, -⟩ | ⟨-, hpassed⟩⟩ := look_error hagain
    · rw [← LexicalFault.take_two_message] at hillegal ⊢
      rwa [← hmessage]
    · -- text has been passed, so the place is another one
      obtain ⟨gap, taken, hgap, hstart, htaken, hend⟩ := look_passes
        (look position spelling text).reached (look position spelling text).spelling
        (look position spelling text).reachedText
      have hoffset := congrArg Position.offset (hreached.symm.trans (hposition.trans hplace))
      have hlength := congrArg List.length hgap
      rw [htaken, List.length_append, List.length_append] at hlength
      rw [hend, hstart, Position.after_offset, Position.after_offset] at hoffset
      omega
  · intro hillegal
    obtain ⟨-, hstart, htext⟩ | ⟨hlegal, -⟩ := hfound
    · rw [← hstart, ← htext, look_again]
      exact ⟨e, hlook, rfl, rfl⟩
    · obtain ⟨c, hc⟩ := hillegal
      exact absurd hc (hlegal c)

namespace Scanner

variable {s : Scanner} {e : LexicalError}

/-- An open scanner fails to give a token for what stands in the text, whatever the request is. -/
theorem answer_eq_error_iff {request : Request} (hrequest : request ≠ .hasNext)
    (hopen : s.terminated = false) :
    s.answer request = .error (.lexical e) ↔
      (look s.working s.spelling s.pending).outcome = .error e := by
  have hanswer : s.answer request = s.next.1.map .token := by
    cases request with
    | next => rfl
    | peek => rw [answer, peek_fst]
    | hasNext => exact absurd rfl hrequest
  rw [hanswer]
  cases hlook : (look s.working s.spelling s.pending).outcome with
  | ok token => simp [next, hopen, hlook, Except.map]
  | error cause => simp [next, hopen, hlook, Except.map]

/-- A request that fails leaves the scanner where the piece with the fault starts, and working on
    from the place of the fault. -/
theorem serve_of_answer_error {request : Request} (hfail : s.answer request = .error (.lexical e)) :
    s.terminated = false ∧ request ≠ .hasNext ∧
      s.serve request =
        { position := (look s.working s.spelling s.pending).start
          working := (look s.working s.spelling s.pending).reached
          pending := (look s.working s.spelling s.pending).reachedText
          spelling := (look s.working s.spelling s.pending).spelling } := by
  have hrequest : request ≠ .hasNext := by
    rintro rfl
    cases hfail
  have hopen : s.terminated = false := by
    cases hend : s.terminated with
    | false => rfl
    | true => cases request <;> simp [answer, next, peek, hend, Except.map] at hfail
  have hlook := (answer_eq_error_iff hrequest hopen).mp hfail
  refine ⟨hopen, hrequest, ?_⟩
  cases request with
  | next => simp [serve, next, hopen, hlook]
  | peek => simp [serve, peek, hopen, hlook]
  | hasNext => exact absurd rfl hrequest

/-- A scanner that fails to give a token is left at the place of the fault. It fails again with the
    same place and message, or goes on after a look as it would have without, only if it met a
    character that starts no piece. -/
theorem fails_again_iff {first second : Request} (hfail : s.answer first = .error (.lexical e))
    (hsecond : second ≠ .hasNext) :
    (s.serve first).working = e.position ∧
      ((∃ again, (s.serve first).answer second = .error (.lexical again) ∧
          again.position = e.position ∧ again.fault.message = e.fault.message) ↔
        ∃ c, e.fault = .illegalCharacter c) ∧
      ((s.serve .peek).next = s.next ↔ ∃ c, e.fault = .illegalCharacter c) := by
  obtain ⟨hopen, hfirst, hserve⟩ := serve_of_answer_error hfail
  have hlook := (answer_eq_error_iff hfirst hopen).mp hfail
  have hagain := look_fails_again_iff hlook
  have hpeekAsks : Request.peek ≠ .hasNext := nofun
  have hnextAsks : Request.next ≠ .hasNext := nofun
  obtain ⟨-, -, hlooked⟩ := serve_of_answer_error ((answer_eq_error_iff hpeekAsks hopen).mpr hlook)
  refine ⟨?_, ?_, ?_⟩
  · rw [hserve]
    exact (look_error hlook).1.symm
  · rw [← hagain, hserve]
    simp only [answer_eq_error_iff hsecond]
  · constructor
    · intro hnext
      have hfails := (answer_eq_error_iff hnextAsks hopen).mpr hlook
      rw [answer, ← hnext, ← answer, hlooked, answer_eq_error_iff hnextAsks rfl] at hfails
      exact hagain.mp ⟨e, hfails, rfl, rfl⟩
    · intro hillegal
      obtain ⟨-, ⟨-, hstart, htext⟩ | ⟨hlegal, -⟩⟩ := look_error hlook
      · rw [hlooked, ← hstart, ← htext]
        simp only [next, look_again, hopen]
        rfl
      · obtain ⟨c, hc⟩ := hillegal
        exact absurd hc (hlegal c)

/-- A character that starts no piece behind a name and a comment is met again and again. -/
theorem fails_again_iff_of_at :
    ((ofText "f (**) @").serve .next).answer .peek =
        .error (.lexical ⟨.illegalCharacter '@', ⟨1, 8, 7⟩⟩) ∧
      (∃ again, (((ofText "f (**) @").serve .next).serve .peek).answer .next =
          .error (.lexical again) ∧ again.position = ⟨1, 8, 7⟩ ∧
        again.fault.message = (LexicalFault.illegalCharacter '@').message) := by
  have hfail : ((ofText "f (**) @").serve .next).answer .peek =
      .error (.lexical ⟨.illegalCharacter '@', ⟨1, 8, 7⟩⟩) := by
    decide +kernel
  have hsecond : Request.next ≠ .hasNext := nofun
  exact ⟨hfail, (fails_again_iff hfail hsecond).2.1.mpr ⟨'@', rfl⟩⟩

/-- After a look at an integer that goes over into a word, the rest of the word is taken. -/
theorem not_fails_again :
    (ofText "1a").answer .peek = .error (.lexical ⟨.characterInInteger 'a', ⟨1, 2, 1⟩⟩) ∧
      ((ofText "1a").serve .peek).answer .next =
        .ok (.token ⟨.identifier, some "a", ⟨1, 2, 1⟩⟩) := by
  decide +kernel

end Scanner

end Klein
