import Klein.Parse

namespace Klein

/-- Looking again from the place where a token was found to start comes to the same sighting. -/
theorem look_again (position : Position) (spelling : String) (text : List Char) :
    look (look position spelling text).start (look position spelling text).spelling
      (look position spelling text).startText = look position spelling text := by
  fun_induction look position spelling text with
  | case1 position spelling => simp [look]
  | case2 position spelling c cs reading reached spelling' hpiece ih => exact ih
  | case3 position spelling c cs reading reached spelling' kind hpiece =>
    rw [look]
    simp only [reading] at hpiece
    split <;> simp_all [reading, reached, spelling']
  | case4 position spelling c cs reading reached spelling' fault hpiece =>
    rw [look]
    simp only [reading] at hpiece
    split <;> simp_all [reading, reached, spelling']

namespace Scanner

/-- Peeking finds what taking would find. -/
theorem peek_fst (s : Scanner) : s.peek.1 = s.next.1 := by
  unfold peek next
  split
  · rfl
  · dsimp only
    split <;> rfl

theorem terminated_of_peek_ok {s after : Scanner} {token : Token}
    (hpeek : s.peek = (.ok token, after)) : s.terminated = false ∧ after.terminated = false := by
  unfold peek at hpeek
  split at hpeek
  · cases hpeek
  · dsimp only at hpeek
    split at hpeek
    · injection hpeek with _ hafter
      subst hafter
      simp_all
    · cases hpeek

/-- A token that was looked at is still there to be taken, and taking it leads where it would
    have led before. -/
theorem next_of_peek_ok {s after : Scanner} {token : Token}
    (hpeek : s.peek = (.ok token, after)) : after.next = s.next := by
  have hopen := terminated_of_peek_ok hpeek
  unfold peek at hpeek
  rw [if_neg (by simp [hopen.1])] at hpeek
  dsimp only at hpeek
  split at hpeek
  · injection hpeek with _ hafter
    subst hafter
    simp only [next, hopen.1, look_again]
    rfl
  · cases hpeek

theorem next_terminated {s after : Scanner} {token : Token} (hnext : s.next = (.ok token, after)) :
    after.terminated = decide (token.kind = .endOfFile) := by
  unfold next at hnext
  split at hnext
  · cases hnext
  · dsimp only at hnext
    split at hnext
    · injection hnext with htoken hafter
      injection htoken with htoken
      subst hafter htoken
      rfl
    · cases hnext

theorem next_of_look {s : Scanner} {token : Token} (hopen : s.terminated = false)
    (hlook : (look s.working s.spelling s.pending).outcome = .ok token) :
    ∃ after, s.next = (.ok token, after) ∧
      after.working = (look s.working s.spelling s.pending).reached ∧
      after.pending = (look s.working s.spelling s.pending).reachedText ∧
      after.terminated = decide (token.kind = .endOfFile) := by
  simp [next, hopen, hlook]

theorem look_of_next_ok {s after : Scanner} {token : Token}
    (hnext : s.next = (.ok token, after)) :
    (look s.working s.spelling s.pending).outcome = .ok token ∧
      after.working = (look s.working s.spelling s.pending).reached ∧
      after.pending = (look s.working s.spelling s.pending).reachedText := by
  unfold next at hnext
  split at hnext
  · cases hnext
  · dsimp only at hnext
    split at hnext
    · rename_i found hlook
      injection hnext with htoken hafter
      injection htoken with htoken
      subst hafter htoken
      exact ⟨hlook, rfl, rfl⟩
    · cases hnext

theorem next_of_look_error {s : Scanner} {e : LexicalError} (hopen : s.terminated = false)
    (hlook : (look s.working s.spelling s.pending).outcome = .error e) :
    ∃ after, s.next = (.error (.lexical e), after) ∧
      after.position = (look s.working s.spelling s.pending).start := by
  simp [next, hopen, hlook]

theorem look_of_next_error {s after : Scanner} {e : LexicalError}
    (hnext : s.next = (.error (.lexical e), after)) :
    (look s.working s.spelling s.pending).outcome = .error e ∧
      after.position = (look s.working s.spelling s.pending).start := by
  unfold next at hnext
  split at hnext
  · cases hnext
  · dsimp only at hnext
    split at hnext
    · cases hnext
    · rename_i found hlook
      cases hnext
      exact ⟨hlook, rfl⟩

/-- Before its end a scanner fails for what stands in the text only. -/
theorem lexical_of_next_error {s : Scanner} {e : ScanError} (hopen : s.terminated = false)
    (hnext : s.next.1 = .error e) : ∃ cause, e = .lexical cause := by
  unfold next at hnext
  rw [if_neg (by simp [hopen])] at hnext
  dsimp only at hnext
  split at hnext
  · cases hnext
  · rename_i cause _
    injection hnext with he
    exact ⟨cause, he.symm⟩

theorem drain_of_terminated {s : Scanner} (hend : s.terminated = true) :
    s.drain = ([], none, s) := by
  rw [drain, if_pos hend]

theorem drain_of_next_ok {s after : Scanner} {token : Token} (hnext : s.next = (.ok token, after)) :
    s.drain = (token :: after.drain.1, after.drain.2) := by
  have hopen : ¬s.terminated = true := by
    intro hend
    simp [next, hend] at hnext
  rw [drain, if_neg hopen]
  split
  · simp_all
  · simp_all

theorem drain_of_next_error {s after : Scanner} {e : ScanError} (hopen : s.terminated = false)
    (hnext : s.next = (.error e, after)) : s.drain = ([], some e, after) := by
  rw [drain, if_neg (by simp [hopen])]
  split <;> simp_all

/-- Looking at a token changes nothing about the tokens that are left. -/
theorem drain_of_peek_ok {s after : Scanner} {token : Token}
    (hpeek : s.peek = (.ok token, after)) : after.drain = s.drain := by
  have hfound : s.next.1 = .ok token := by
    rw [← peek_fst, hpeek]
  have hnext : s.next = (.ok token, s.next.2) := by rw [← hfound]
  rw [drain_of_next_ok hnext, drain_of_next_ok ((next_of_peek_ok hpeek).trans hnext)]

theorem drain_length_le_remaining (s : Scanner) : s.drain.1.length ≤ s.remaining := by
  fun_induction drain s with
  | case1 s hend => simp
  | case2 s hopen token after hnext tokens fault last hdrain ih =>
    have hlt := remaining_next_lt hopen hnext
    simp only [hdrain] at ih
    simp only [List.length_cons]
    omega
  | case3 s hopen e after hnext => simp

/-- A scanner that has given all its tokens without a fault has given the end of the text last and
    only there, and has terminated. -/
theorem drain_ok {s last : Scanner} {tokens : List Token} (hopen : s.terminated = false)
    (hdrain : s.drain = (tokens, none, last)) :
    ∃ (body : List Token) (eof : Token), tokens = body ++ [eof] ∧ eof.kind = .endOfFile ∧
      (∀ token ∈ body, token.kind ≠ .endOfFile) ∧ last.terminated = true := by
  fun_induction drain s generalizing tokens last with
  | case1 s hend => simp_all
  | case2 s hnot token after hnext rest fault final hrest ih =>
    injection hdrain with htokens hlast
    injection hlast with hfault hfinal
    subst htokens hfault hfinal
    by_cases hend : token.kind = .endOfFile
    · have hafter : after.terminated = true := by
        have := next_terminated hnext
        simp [this, hend]
      rw [drain_of_terminated hafter] at hrest
      injection hrest with hnil hrest
      injection hrest with _ hlast
      subst hnil hlast
      exact ⟨[], token, rfl, hend, by simp, hafter⟩
    · have hafter : after.terminated = false := by
        have := next_terminated hnext
        simp [this, hend]
      obtain ⟨body, eof, hbody, heof, hothers, hlast⟩ := ih hafter hrest
      refine ⟨token :: body, eof, by simp [hbody], heof, ?_, hlast⟩
      intro other hmem
      rcases List.mem_cons.mp hmem with rfl | hmem
      · exact hend
      · exact hothers other hmem
  | case3 s hnot e after hnext => cases hdrain

end Scanner

namespace TokenStream

/-- The tokens that a stream will give. -/
def ahead : TokenStream → List Token
  | scanner s => s.drain.1
  | listed tokens _ => tokens

/-- What comes of asking a stream for a token after it has given all. -/
def ending : TokenStream → ScanError
  | scanner s => s.drain.2.1.getD .terminated
  | listed _ e => e

theorem ahead_length_le_size (stream : TokenStream) : stream.ahead.length ≤ stream.size := by
  cases stream with
  | scanner s => exact s.drain_length_le_remaining
  | listed tokens e => exact Nat.le_refl _

/-- Taking a token gives the first one ahead and leaves the others. -/
theorem next_of_ahead_cons {stream : TokenStream} {token : Token} {tokens : List Token}
    (hahead : stream.ahead = token :: tokens) :
    ∃ after, stream.next = (.ok token, after) ∧ after.ahead = tokens ∧
      after.ending = stream.ending := by
  cases stream with
  | listed all e =>
    simp only [ahead] at hahead
    subst hahead
    exact ⟨_, rfl, rfl, rfl⟩
  | scanner s =>
    simp only [ahead] at hahead
    have hopen : s.terminated = false := by
      cases hend : s.terminated with
      | false => rfl
      | true => simp [s.drain_of_terminated hend] at hahead
    rcases hnext : s.next with ⟨found | found, after⟩
    · rw [Scanner.drain_of_next_error hopen hnext] at hahead
      cases hahead
    · have hdrain := Scanner.drain_of_next_ok hnext
      rw [hdrain] at hahead
      injection hahead with htoken htokens
      subst htoken
      exact ⟨.scanner after, by simp [next, hnext], htokens, by simp [ending, hdrain]⟩

/-- Looking at a token gives the first one ahead and leaves all of them. -/
theorem peek_of_ahead_cons {stream : TokenStream} {token : Token} {tokens : List Token}
    (hahead : stream.ahead = token :: tokens) :
    ∃ after, stream.peek = (.ok token, after) ∧ after.ahead = stream.ahead ∧
      after.ending = stream.ending := by
  cases stream with
  | listed all e =>
    simp only [ahead] at hahead
    subst hahead
    exact ⟨_, rfl, rfl, rfl⟩
  | scanner s =>
    obtain ⟨after, hnext, -⟩ := next_of_ahead_cons hahead
    have hfound : s.peek.1 = .ok token := by
      rw [s.peek_fst]
      exact congrArg Prod.fst hnext
    have hpeek : s.peek = (.ok token, s.peek.2) := by rw [← hfound]
    have hdrain := Scanner.drain_of_peek_ok hpeek
    exact ⟨.scanner s.peek.2, by simp [peek, hfound], by simp [ahead, hdrain],
      by simp [ending, hdrain]⟩

/-- With no token ahead a stream gives its ending. -/
theorem next_of_ahead_nil {stream : TokenStream} (hahead : stream.ahead = []) :
    stream.next.1 = .error stream.ending := by
  cases stream with
  | listed all e =>
    simp only [ahead] at hahead
    subst hahead
    rfl
  | scanner s =>
    simp only [ahead] at hahead
    cases hend : s.terminated with
    | true => simp [next, Scanner.next, hend, ending, s.drain_of_terminated hend]
    | false =>
      rcases hnext : s.next with ⟨found | found, after⟩
      · simp [next, hnext, ending, Scanner.drain_of_next_error hend hnext]
      · rw [Scanner.drain_of_next_ok hnext] at hahead
        cases hahead

theorem peek_of_ahead_nil {stream : TokenStream} (hahead : stream.ahead = []) :
    stream.peek.1 = .error stream.ending := by
  have hnext := next_of_ahead_nil hahead
  cases stream with
  | listed all e =>
    simp only [ahead] at hahead
    subst hahead
    rfl
  | scanner s =>
    rw [← hnext]
    exact s.peek_fst

theorem ahead_of_next_ok {stream after : TokenStream} {token : Token}
    (hnext : stream.next = (.ok token, after)) : stream.ahead = token :: after.ahead := by
  cases hahead : stream.ahead with
  | nil =>
    have hend := next_of_ahead_nil hahead
    simp [hnext] at hend
  | cons first tokens =>
    obtain ⟨rest, hfirst, hrest, -⟩ := next_of_ahead_cons hahead
    rw [hnext] at hfirst
    injection hfirst with hfound hafter
    injection hfound with htoken
    subst htoken hafter
    rw [hrest]

theorem ahead_of_peek_ok {stream after : TokenStream} {token : Token}
    (hpeek : stream.peek = (.ok token, after)) :
    after.ahead = stream.ahead ∧ ∃ tokens, stream.ahead = token :: tokens := by
  cases hahead : stream.ahead with
  | nil =>
    have hend := peek_of_ahead_nil hahead
    simp [hpeek] at hend
  | cons first tokens =>
    obtain ⟨rest, hfirst, hrest, -⟩ := peek_of_ahead_cons hahead
    rw [hpeek] at hfirst
    injection hfirst with hfound hafter
    injection hfound with htoken
    subst htoken hafter
    exact ⟨hrest.trans hahead, tokens, rfl⟩

end TokenStream

end Klein
