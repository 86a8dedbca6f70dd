import Mathlib
import ObjectLang.Proofs.Parse.Advances

/-!
# Token streams as queues

Reading is put off until a token is asked for, and what is put back waits in front of the text.
None of this shows: a stream answers as a list of tokens and errors does that tokens are put in
front of. In particular it does not matter when, or how often, one looks ahead.
-/

namespace ObjectLang

open Scan

/-! ## Queues -/

/-- The tokens and errors still to come, the line at the end of the last of them, and the line at
the end of the text. -/
structure TokenQueue where
  entries : List (Except SyntaxError Lexeme)
  stop : Nat
  last : Nat

namespace TokenQueue

open TokenStream (Answer)

def cons (e : Except SyntaxError Lexeme) (q : TokenQueue) : TokenQueue :=
  { q with entries := e :: q.entries }

/-- Removes the first entry. At the end the whole text has been read. -/
def next (q : TokenQueue) : Answer × TokenQueue :=
  match q.entries with
  | [] => (.ok none, { q with stop := q.last })
  | .ok l :: rest => (.ok (some l), { q with entries := rest })
  | .error e :: rest => (.error e, { q with entries := rest })

def peek (q : TokenQueue) : Answer × TokenQueue :=
  match q.entries with
  | .ok l :: _ => (.ok (some l), q)
  | _ => q.next

def lineHere (q : TokenQueue) : Nat :=
  match q.entries with
  | [] => q.stop
  | .ok l :: _ => l.line
  | .error e :: _ => e.line

theorem peek_token {q : TokenQueue} {l : Lexeme} (h : q.peek.1 = .ok (some l)) : q.peek.2 = q := by
  obtain ⟨entries, stop, last⟩ := q
  match entries with
  | .ok _ :: _ => rfl
  | [] | .error _ :: _ => cases h

end TokenQueue

/-! ## Requests -/

namespace TokenStream

inductive Request where
  | next
  | peek
  | push (l : Lexeme)
  | lineHere

inductive Reply where
  | answer (a : Answer)
  | line (n : Nat)

def ask (s : TokenStream) : Request → Option Reply × TokenStream
  | .next => (some (.answer s.next.1), s.next.2)
  | .peek => (some (.answer s.peek.1), s.peek.2)
  | .push l => (none, s.push l)
  | .lineHere => (some (.line s.lineHere), s)

end TokenStream

open TokenStream (Request Reply)

def TokenQueue.ask (q : TokenQueue) : Request → Option Reply × TokenQueue
  | .next => (some (.answer q.next.1), q.next.2)
  | .peek => (some (.answer q.peek.1), q.peek.2)
  | .push l => (none, q.cons (.ok l))
  | .lineHere => (some (.line q.lineHere), q)

section
variable {σ : Type} (ask : σ → Request → Option Reply × σ)

/-- The state after the requests. -/
def behind (s : σ) (requests : List Request) : σ :=
  requests.foldl (fun s r => (ask s r).2) s

def replies : σ → List Request → List Reply
  | _, [] => []
  | s, r :: rest => (ask s r).1.toList ++ replies (ask s r).2 rest

theorem replies_append (front back : List Request) (s : σ) :
    replies ask s (front ++ back) =
      replies ask s front ++ replies ask (behind ask s front) back := by
  induction front generalizing s with
  | nil => rfl
  | cons r front ih => rw [List.cons_append, replies, replies, ih, List.append_assoc]; rfl

end

/-! ## The queue of a stream -/

namespace TokenStream

theorem rest_read_lt {s s' : TokenStream} {a : Answer} (h : s.read = (a, s'))
    (some : a ≠ .ok none) : s'.rest.length < s.rest.length := by
  obtain ⟨w, split, _⟩ := skip_splits s.line false s.rest
  cases hr : (skip s.line false s.rest).rest with
  | nil =>
    rw [read_end hr] at h
    cases h
    exact absurd rfl some
  | cons c r =>
    rw [read_item hr] at h
    cases h
    obtain ⟨v, nonempty, split', _⟩ := itemAt_consumes c r
    have pos := List.length_pos_iff.mpr nonempty
    have whole := congrArg List.length split
    have part := congrArg List.length split'
    rw [hr, List.length_append] at whole
    rw [List.length_append] at part
    change (itemAt c r).2.length < s.rest.length
    omega

/-- What the text from `line` on is read as. -/
def lexed (line : Nat) (rest : List Char) : TokenQueue :=
  match _h : read ⟨rest, line, []⟩ with
  | (.ok none, s) => ⟨[], line, s.line⟩
  | (.ok (some l), s) => (lexed s.line s.rest).cons (.ok l)
  | (.error e, s) => (lexed s.line s.rest).cons (.error e)
termination_by rest.length
decreasing_by
  · exact rest_read_lt _h nofun
  · exact rest_read_lt _h nofun

def queue (s : TokenStream) : TokenQueue :=
  s.pushed.foldr (fun l => TokenQueue.cons (.ok l)) (lexed s.line s.rest)

theorem queue_of_unpushed {s : TokenStream} (h : s.pushed = []) :
    s.queue = lexed s.line s.rest := by
  rw [queue, h]
  rfl

theorem lexed_nil (line : Nat) : lexed line [] = ⟨[], line, line⟩ := by
  rw [lexed]
  rfl

/-- What reading from `line` on gives, and the stream then, when the text is read as `q`. -/
inductive Lexes (line : Nat) (q : TokenQueue) : Answer × TokenStream → Prop where
  | ended {s : TokenStream} : q = ⟨[], line, s.line⟩ → s.queue = ⟨[], s.line, s.line⟩ →
      Lexes line q (.ok none, s)
  | token {s : TokenStream} {l : Lexeme} : l.line = line → q = s.queue.cons (.ok l) →
      Lexes line q (.ok (some l), s)
  | fault {s : TokenStream} {e : SyntaxError} : e.line = line → q = s.queue.cons (.error e) →
      Lexes line q (.error e, s)

theorem lexes_read (rest : List Char) (line : Nat) :
    Lexes line (lexed line rest) (read ⟨rest, line, []⟩) := by
  have given : Gives _ (read ⟨rest, line, []⟩) := gives_next ⟨rest, line, []⟩
  rw [lexed]
  split
  · next s read =>
    rw [read] at given ⊢
    cases given with
    | ended _ pushed done => exact .ended rfl (by rw [queue_of_unpushed pushed, done, lexed_nil])
  · next l s read =>
    rw [read] at given ⊢
    cases given with
    | returned pushed => cases pushed
    | token _ pushed => exact .token rfl (by rw [queue_of_unpushed pushed])
  · next e s read =>
    rw [read] at given ⊢
    cases given with
    | fault _ pushed => exact .fault rfl (by rw [queue_of_unpushed pushed])

theorem queue_next (s : TokenStream) : s.queue.next = (s.next.1, s.next.2.queue) := by
  obtain ⟨rest, line, pushed⟩ := s
  cases pushed with
  | cons l ls => rfl
  | nil =>
    have lexes := lexes_read rest line
    change (lexed line rest).next = ((read _).1, (read _).2.queue)
    generalize read ⟨rest, line, []⟩ = given at lexes
    cases lexes with
    | ended whole done => rw [whole, done]; rfl
    | token _ whole | fault _ whole => rw [whole]; rfl

theorem queue_peek (s : TokenStream) : s.queue.peek = (s.peek.1, s.peek.2.queue) := by
  obtain ⟨rest, line, pushed⟩ := s
  cases pushed with
  | cons l ls => rfl
  | nil =>
    have lexes := lexes_read rest line
    change (lexed line rest).peek = _
    rw [peek, next]
    generalize read ⟨rest, line, []⟩ = given at lexes
    cases lexes with
    | ended whole done => rw [whole, done]; rfl
    | token _ whole | fault _ whole => rw [whole]; rfl

theorem queue_lineHere (s : TokenStream) : s.queue.lineHere = s.lineHere := by
  obtain ⟨rest, line, pushed⟩ := s
  cases pushed with
  | cons l ls => rfl
  | nil =>
    have lexes := lexes_read rest line
    change (lexed line rest).lineHere = line
    generalize read ⟨rest, line, []⟩ = given at lexes
    cases lexes with
    | ended whole => rw [whole]; rfl
    | token same whole | fault same whole => rw [whole]; exact same

theorem queue_ask (s : TokenStream) (r : Request) :
    s.queue.ask r = ((s.ask r).1, (s.ask r).2.queue) := by
  cases r with
  | next => rw [TokenQueue.ask, queue_next]; rfl
  | peek => rw [TokenQueue.ask, queue_peek]; rfl
  | push l => rfl
  | lineHere => rw [TokenQueue.ask, queue_lineHere]; rfl

theorem replies_queue (requests : List Request) (s : TokenStream) :
    replies TokenQueue.ask s.queue requests = replies TokenStream.ask s requests := by
  induction requests generalizing s with
  | nil => rfl
  | cons r rest ih => rw [replies, replies, queue_ask, ih]

/-- A queue is not changed by looking at a token, so the stream shows no change either. -/
theorem replies_after_peek {s : TokenStream} {l : Lexeme} (h : s.peek.1 = .ok (some l))
    (requests : List Request) :
    replies TokenStream.ask s.peek.2 requests = replies TokenStream.ask s requests := by
  have same : s.peek.2.queue = s.queue := by
    have peeked := s.queue_peek
    exact (congrArg Prod.snd peeked).symm.trans
      (TokenQueue.peek_token ((congrArg Prod.fst peeked).trans h))
  rw [← replies_queue, ← replies_queue, same]

end TokenStream

open TokenStream (ofString lexed)

/-- Whatever is asked, a stream answers as the queue of the items that its text is read as. Looking
at a token changes no later answer, and not the line. -/
theorem stream_is_queue (source : String) :
    (∀ requests, replies TokenStream.ask (ofString source) requests =
      replies TokenQueue.ask (lexed 1 source.toList) requests) ∧
    ∀ before s l, behind TokenStream.ask (ofString source) before = s → s.peek.1 = .ok (some l) →
      s.peek.2.lineHere = s.lineHere ∧ ∀ after,
        replies TokenStream.ask (ofString source) (before ++ after) =
          replies TokenStream.ask (ofString source) before ++ replies TokenStream.ask s after ∧
        replies TokenStream.ask (ofString source) (before ++ .peek :: after) =
          replies TokenStream.ask (ofString source) before ++
            .answer (.ok (some l)) :: replies TokenStream.ask s after := by
  refine ⟨fun requests => (TokenStream.replies_queue requests _).symm, ?_⟩
  rintro before s l rfl looked
  have same := TokenStream.replies_after_peek looked
  refine ⟨?_, fun after => ⟨replies_append _ before after _, ?_⟩⟩
  · have line := same [.lineHere]
    injection line with line
    injection line
  · have asked : TokenStream.ask (behind TokenStream.ask (ofString source) before) .peek =
        (some (.answer (.ok (some l))),
          (behind TokenStream.ask (ofString source) before).peek.2) := by
      rw [TokenStream.ask, looked]
    rw [replies_append, replies, asked, ← same after]
    rfl

/-- Looking at the newline takes the lexer to the third line, and the stream stays on the first. -/
theorem stream_is_queue_joined :
    let s := behind TokenStream.ask (ofString "a ~\\\n\nb") [.next, .next]
    s.peek.1 = .ok (some ⟨.fixed .newline, 1, true⟩) ∧ s.peek.2.line = 3 ∧
      s.peek.2.lineHere = s.lineHere := by
  have looked : (behind TokenStream.ask (ofString "a ~\\\n\nb") [.next, .next]).peek.1 =
      .ok (some ⟨.fixed .newline, 1, true⟩) := by cbv
  exact ⟨looked, by cbv, ((stream_is_queue "a ~\\\n\nb").2 [.next, .next] _ _ rfl looked).1⟩

end ObjectLang
