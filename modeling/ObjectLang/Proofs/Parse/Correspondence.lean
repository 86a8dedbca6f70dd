import ObjectLang.Proofs.Parse.Paired
import ObjectLang.Proofs.Parse.Program

/-!
# Corresponding streams

Parsing looks at a stream only through the tokens, the lines and the errors that it gives. Where two
streams correspond in these the parser gives the same value for both, or errors that correspond.
-/

namespace ObjectLang

open Parse Grammar

/-- What two streams give next: the end of both, tokens that `lexeme` relates, or errors that `halt`
relates, each with what is left of its stream. -/
inductive TokenStream.Meets (rel : TokenStream → TokenStream → Prop)
    (lexeme : Lexeme → Lexeme → Prop)
    (halt : SyntaxError → TokenStream → SyntaxError → TokenStream → Prop) :
    Except SyntaxError (Option Lexeme) × TokenStream →
      Except SyntaxError (Option Lexeme) × TokenStream → Prop where
  | ended {s s' : TokenStream} : rel s s' → Meets rel lexeme halt (.ok none, s) (.ok none, s')
  | token {l l' : Lexeme} {s s' : TokenStream} : lexeme l l' → rel s s' →
      Meets rel lexeme halt (.ok (some l), s) (.ok (some l'), s')
  | error {e e' : SyntaxError} {s s' : TokenStream} : halt e s e' s' →
      Meets rel lexeme halt (.error e, s) (.error e', s')

/-- A relation between streams that taking and returning tokens keeps. The lines in front of an
error need not be related. -/
structure Correspondence where
  rel : TokenStream → TokenStream → Prop
  lexeme : Lexeme → Lexeme → Prop
  line : Nat → Nat → Prop
  halt : SyntaxError → TokenStream → SyntaxError → TokenStream → Prop
  alike : ∀ {l l' : Lexeme}, lexeme l l' → SameLexeme l l'
  atLine : ∀ {l l' : Lexeme}, lexeme l l' → line l.line l'.line
  meets : ∀ {s s' : TokenStream}, rel s s' → TokenStream.Meets rel lexeme halt s.next s'.next
  pushes : ∀ {s s' : TokenStream} {l l' : Lexeme}, rel s s' → lexeme l l' →
    rel (s.push l) (s'.push l')
  lines : ∀ {s s' : TokenStream}, rel s s' → line s.lineHere s'.lineHere ∨
    (∃ e u, s.next = (.error e, u)) ∧ ∃ e u, s'.next = (.error e, u)
  fails : ∀ {s s' : TokenStream} (fault : SyntaxFault) {n n' : Nat}, rel s s' → line n n' →
    halt ⟨fault, n⟩ s ⟨fault, n'⟩ s'

namespace Correspondence

variable (C : Correspondence) {α β : Type}

/-- Corresponding streams under the same restriction on `do`. -/
structure Side (p q : Parser) : Prop where
  tokens : C.rel p.tokens q.tokens
  setting : p.noDo = q.noDo

/-- How corresponding runs end. An unfinished one says nothing. -/
inductive Ends : Parsed α → Parsed α → Prop where
  | value {a : α} {p q : Parser} : C.Side p q → Ends (.ok a p) (.ok a q)
  | error {e e' : SyntaxError} {p q : Parser} : C.halt e p.tokens e' q.tokens → p.noDo = q.noDo →
      Ends (.error e p) (.error e' q)
  | left {o : Parsed α} : Ends .unfinished o
  | right {o : Parsed α} : Ends o .unfinished

/-- The steps end in corresponding ways wherever they begin side by side. -/
def Runs (x y : Parse α) : Prop :=
  ∀ p q, C.Side p q → C.Ends (x p) (y q)

/-! ## Single steps -/

section
variable {C} {x y : Parse α} {f f' : α → Parse β}

theorem runs_pure (a : α) : C.Runs (pure a : Parse α) (pure a) :=
  fun _ _ h => .value h

theorem runs_unfinished : C.Runs (unfinished : Parse α) unfinished :=
  fun _ _ _ => .left

theorem runs_fail (fault : SyntaxFault) {line line' : Nat} (h : C.line line line') :
    C.Runs (fail fault line : Parse α) (fail fault line') :=
  fun _ _ side => .error (C.fails fault side.tokens h) side.setting

theorem runs_push {l l' : Lexeme} (h : C.lexeme l l') : C.Runs (push l) (push l') :=
  fun _ _ side => .value ⟨C.pushes side.tokens h, side.setting⟩

theorem runs_bind (hx : C.Runs x y) (hf : ∀ a, C.Runs (f a) (f' a)) :
    C.Runs (x >>= f) (y >>= f') := by
  intro p q side
  have first := hx p q side
  cases hp : x p with
  | unfinished =>
    rw [bind_unfinished hp]
    exact .left
  | ok a u =>
    cases hq : y q with
    | unfinished =>
      rw [bind_unfinished hq]
      exact .right
    | ok b v =>
      rw [hp, hq] at first
      rw [bind_ok hp, bind_ok hq]
      cases first with
      | value side => exact hf a u v side
    | error e v =>
      rw [hp, hq] at first
      cases first
  | error e u =>
    cases hq : y q with
    | unfinished =>
      rw [bind_unfinished hq]
      exact .right
    | ok b v =>
      rw [hp, hq] at first
      cases first
    | error e' v =>
      rw [hp, hq] at first
      rw [bind_error hp, bind_error hq]
      cases first with
      | error halt setting => exact .error halt setting

theorem runs_lineHere {f f' : Nat → Parse β} (hf : ∀ line, Fetches (f line))
    (hf' : ∀ line, Fetches (f' line))
    (h : ∀ line line', C.line line line' → C.Runs (f line) (f' line')) :
    C.Runs (lineHere >>= f) (lineHere >>= f') := by
  intro p q side
  rcases C.lines side.tokens with lines | ⟨⟨e, u, hp⟩, e', v, hq⟩
  · exact h _ _ lines p q side
  · have met := C.meets side.tokens
    rw [hp, hq] at met
    change C.Ends (f p.tokens.lineHere p) (f' q.tokens.lineHere q)
    rcases hf p.tokens.lineHere p e u hp with left | left
    · rcases hf' q.tokens.lineHere q e' v hq with right | right
      · rw [left, right]
        cases met with
        | error halt => exact .error halt side.setting
      · rw [right]
        exact .right
    · rw [left]
      exact .left

theorem runs_restricted (noDo : Bool) (h : C.Runs x y) :
    C.Runs (restricted noDo x) (restricted noDo y) := by
  intro p q side
  have inside := h { p with noDo := noDo } { q with noDo := noDo } ⟨side.tokens, rfl⟩
  unfold restricted
  cases hp : x { p with noDo := noDo } <;> cases hq : y { q with noDo := noDo } <;>
    rw [hp, hq] at inside
  case ok.ok =>
    cases inside with
    | value rest => exact .value ⟨rest.tokens, side.setting⟩
  case error.error =>
    cases inside with
    | error halt _ => exact .error halt side.setting
  all_goals cases inside <;> constructor

theorem runs_next {f f' : Option Lexeme → Parse β} (hnone : C.Runs (f none) (f' none))
    (hsome : ∀ l l', C.lexeme l l' → C.Runs (f (some l)) (f' (some l'))) :
    C.Runs (next >>= f) (next >>= f') := by
  intro p q side
  have met := C.meets side.tokens
  cases hp : p.tokens.next
  cases hq : q.tokens.next
  rw [hp, hq] at met
  cases met with
  | ended rest =>
    rw [bind_ok (next_end hp), bind_ok (next_end hq)]
    exact hnone _ _ ⟨rest, side.setting⟩
  | token same rest =>
    rw [bind_ok (next_token hp), bind_ok (next_token hq)]
    exact hsome _ _ same _ _ ⟨rest, side.setting⟩
  | error halt =>
    rw [bind_error (next_error hp), bind_error (next_error hq)]
    exact .error halt side.setting

/-- A look at the end of both streams tells lines that are related. -/
theorem runs_look {n n' : Nat → Parse β} {f f' : Option Lexeme → Parse β}
    (e : f none = lineHere >>= n) (e' : f' none = lineHere >>= n')
    (hnone : ∀ line line', C.line line line' → C.Runs (n line) (n' line'))
    (hsome : ∀ l l', C.lexeme l l' → C.Runs (f (some l)) (f' (some l'))) :
    C.Runs (peek >>= f) (peek >>= f') := by
  intro p q side
  have met := C.meets side.tokens
  cases hp : p.tokens.next
  cases hq : q.tokens.next
  rw [hp, hq] at met
  cases met with
  | ended rest =>
    rw [bind_ok (peek_end hp), bind_ok (peek_end hq), e, e']
    rcases C.lines rest with lines | ⟨⟨e, u, error⟩, _⟩
    · exact hnone _ _ lines _ _ ⟨rest, side.setting⟩
    · cases (next_again hp).symm.trans error
  | token same rest =>
    rw [bind_ok (peek_token hp), bind_ok (peek_token hq)]
    exact hsome _ _ same _ _ ⟨C.pushes rest same, side.setting⟩
  | error halt =>
    rw [bind_error (peek_error hp), bind_error (peek_error hq)]
    exact .error halt side.setting

theorem runs_accept (t : Fixed) {F G : Bool → Parse β} (h : ∀ b, C.Runs (F b) (G b)) :
    C.Runs (accept t >>= F) (accept t >>= G) := by
  rw [accept_next, accept_next]
  have unread : F false = lineHere >>= fun _ => F false := rfl
  have unread' : G false = lineHere >>= fun _ => G false := rfl
  refine runs_look unread unread' (fun _ _ _ => h false) fun l l' same => ?_
  rw [Option.any_some, Option.any_some, (C.alike same).token]
  split
  · exact runs_next (h true) fun _ _ _ => h true
  · exact h false

theorem runs_endOfCommand : C.Runs endOfCommand endOfCommand := by
  refine runs_next (runs_pure ()) fun l l' same => ?_
  dsimp only
  rw [(C.alike same).token]
  split
  · exact runs_push same
  split
  · exact runs_pure ()
  · exact runs_fail _ (C.atLine same)

theorem runs_blockTrailer {r : Nested} {fuel : Nat}
    (hend : C.Runs (blockBody r .endWord fuel) (blockBody r .endWord fuel))
    (hbrace : C.Runs (braceBlock r fuel) (braceBlock r fuel)) :
    C.Runs (blockTrailer r fuel) (blockTrailer r fuel) := by
  have block : ∀ b, C.Runs (doBlock r fuel b) (doBlock r fuel b) := by
    rintro (_ | _)
    · exact hbrace
    · exact runs_bind hend fun b => runs_pure (some b)
  have allowed : C.Runs doAllowed doAllowed := by
    intro p q side
    rw [doAllowed, doAllowed, side.setting]
    exact .value side
  rw [blockTrailer_eq]
  refine runs_bind allowed fun b => ?_
  cases b with
  | true => exact runs_accept .doWord block
  | false => exact hbrace

end

/-- Every rule of the grammar ends in corresponding ways on corresponding streams. -/
theorem runs_congruence : Congruence C.line fun _ {_} x y => C.Runs x y where
  soften h := h
  free h := h
  unfinished := runs_unfinished
  fail fault := runs_fail fault
  fail_after fault _ _ hx lines := runs_bind hx fun _ => runs_fail fault lines
  pure a := runs_pure a
  bind hx hf := runs_bind hx hf
  bind_free hx hf := runs_bind hx hf
  bind_rests hx hf _ := runs_bind hx hf
  bind_breaks hx hf _ := runs_bind hx hf
  lineHere hf hf' h := runs_lineHere hf hf' h
  restricted noDo h := runs_restricted noDo h
  next hnone hsome := runs_next hnone fun l l' same => hsome l l' (C.alike same) (C.atLine same)
  look e e' hnone hsome _ := runs_look e e' hnone fun l l' same =>
    hsome l l' (C.alike same) (C.atLine same)
  acceptNewline := by
    rw [← bind_pure (accept .newline)]
    exact runs_accept .newline runs_pure
  endOfCommand := runs_endOfCommand
  blockTrailer hend hbrace := runs_blockTrailer hend hbrace

/-! ## Programs -/

/-- The answers for corresponding streams. -/
inductive Answers : Except SyntaxError (List Expr) → Except SyntaxError (List Expr) → Prop where
  | value (cs : List Expr) : Answers (.ok cs) (.ok cs)
  | error {e e' : SyntaxError} {s s' : TokenStream} : C.halt e s e' s' →
      Answers (.error e) (.error e')

variable {C} in
/-- The bounds on the two sides may differ. Both are below their sum. -/
theorem ends_under {x : Nat → Parse α} {needs clear : Bool}
    (follows : ∀ {m n : Nat}, m ≤ n → Follows 0 [] needs clear (x m) (x n))
    (runs : ∀ n, C.Runs (x n) (x n)) {p q : Parser} (side : C.Side p q) (m n : Nat) :
    C.Ends (x m p) (x n q) := by
  by_cases left : x m p = .unfinished
  · rw [left]
    exact .left
  by_cases right : x n q = .unfinished
  · rw [right]
    exact .right
  rw [← (follows (Nat.le_add_right m n)).same left, ← (follows (Nat.le_add_left n m)).same right]
  exact runs (m + n) p q side

theorem answers_program {p q : Parser} (side : C.Side p q) {r r' : Except SyntaxError (List Expr)}
    (hp : p.Gives r) (hq : q.Gives r') : C.Answers r r' := by
  have ends : C.Ends p.program q.program :=
    ends_under (fun le => follows_commands le le) (program_congr C.runs_congruence) side _ _
  unfold Parser.Gives at hp hq
  cases ho : p.program <;> cases ho' : q.program <;> rw [ho] at hp ends <;>
    rw [ho'] at hq ends <;> cases hp <;> cases hq
  case ok.ok.refl.refl =>
    cases ends with
    | value _ => exact .value _
  case error.error.refl.refl =>
    cases ends with
    | error halt _ => exact .error halt
  all_goals cases ends

end Correspondence

end ObjectLang
