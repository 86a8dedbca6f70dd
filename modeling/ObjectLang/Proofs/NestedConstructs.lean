import Mathlib
import ObjectLang.Proofs.Parse.Arguments
import ObjectLang.Proofs.Parse.Restriction
import ObjectLang.Proofs.Token.Writing

/-!
# Constructs among bare arguments

A construct that is a program of its own is the same construct as a bare argument of a call, or the
program breaks off at a `do` of it: the restriction on `do` among bare arguments reaches into the
bodies of the construct, where the `do` belongs to a call.
-/

namespace ObjectLang

open Parse Grammar Scan
open TokenStream (Ahead lineAfter)

/-- The keywords of constructs with an `end` of their own. -/
def Fixed.opensConstruct : Fixed → Bool
  | ifWord | whileWord | untilWord | forWord | defWord | classWord | moduleWord => true
  | _ => false

/-- A construct with an `end` of its own. -/
def Expr.isConstruct : Expr → Bool
  | ifElse _ _ _ | whileLoop _ _ | untilLoop _ _ | forIn _ _ _ | define _ _ _ | classDef _ _ _
  | moduleDef _ _ => true
  | _ => false

/-! ## Tokens in front of a text -/

theorem skip_spaced (line : Nat) (b : Bool) (x : List Char) :
    skip line true x = { skip line b x with skipped := true } := by
  fun_induction skip line b x with
  | case1 line b r ih | case2 line b r ih | case3 line b r ih | case4 line b r ih
  | case5 line b r ih | case6 line b r ih => rw [skip]; exact ih
  | case7 line b r => rw [skip]
  | case8 => rw [skip] <;> assumption

theorem next_spelled {t : Token} {w rest : List Char} (h : Spelling t w) (ha : Apart w rest)
    (line : Nat) : TokenStream.next ⟨w ++ rest, line, []⟩ =
      (.ok (some ⟨t, line, false⟩), ⟨rest, lineAfter line (.token t), []⟩) := by
  obtain ⟨c, r, e, hc⟩ := h.begins
  have here : skip line false (w ++ rest) = ⟨c :: (r ++ rest), line, false⟩ := by
    rw [e, List.cons_append, skip_token hc]
  have token := TokenStream.read_token (s := ⟨w ++ rest, line, []⟩) (congrArg Gap.rest here)
    (itemAt_spelling e h ha)
  rw [here] at token
  exact token

theorem next_behind_blank {x : List Char} {line : Nat} {l : Lexeme} {s : TokenStream}
    (h : TokenStream.next ⟨x, line, []⟩ = (.ok (some l), s)) :
    TokenStream.next ⟨' ' :: x, line, []⟩ = (.ok (some { l with spaced := true }), s) := by
  change TokenStream.read ⟨x, line, []⟩ = _ at h
  change TokenStream.read ⟨' ' :: x, line, []⟩ = _
  have gap : skip line false (' ' :: x) = { skip line false x with skipped := true } := by
    rw [skip, skip_spaced line false]
  cases hr : (skip line false x).rest with
  | nil =>
    rw [TokenStream.read_end (s := ⟨x, line, []⟩) hr] at h
    cases h
  | cons c r =>
    have behind : (skip line false (' ' :: x)).rest = c :: r := by rw [gap]; exact hr
    rw [TokenStream.read_item (s := ⟨x, line, []⟩) hr] at h
    rw [TokenStream.read_item (s := ⟨' ' :: x, line, []⟩) behind, gap]
    cases hi : (itemAt c r).1 with
    | token t =>
      rw [hi] at h
      cases h
      rfl
    | fault f =>
      rw [hi] at h
      cases h

/-! ## The construct by itself -/

section
variable {r : Nested} {fuel : Nat} {f : Fixed} {line : Nat} {k : Expr} {p q u : Parser}
  {s : TokenStream} {l : Lexeme}

theorem Expr.isWord_of_construct (h : k.isConstruct = true) : k.isWord = false := by
  cases k <;> first | rfl | cases h

theorem Expr.isJoined_of_construct (h : k.isConstruct = true) : k.isJoined = false := by
  cases k <;> first | rfl | cases h

/-- Whatever the step gives is a construct. -/
abbrev GivesConstruct (x : Parse Expr) : Prop :=
  Yields (fun k => k.isConstruct = true) x

theorem givesConstruct_if : ∀ depth : Nat, GivesConstruct (ifConstruct r fuel depth)
  | 0 => fun _ _ _ => nofun
  | depth + 1 => by
    have branches : ∀ condition : Expr, GivesConstruct (do
        let thenBody ← commandList r [.endWord, .elseWord, .elifWord] fuel
        if ← accept .elifWord then
          let other ← ifConstruct r fuel depth
          pure (.ifElse condition (.ofBody thenBody) (some other))
        else if ← accept .elseWord then
          let other ← bodyUntilEnd r fuel
          pure (.ifElse condition (.ofBody thenBody) (some other))
        else
          expect .endWord
          pure (.ifElse condition (.ofBody thenBody) none)) := by
      intro condition
      refine yields_bind fun thenBody => yields_bind fun elif => ?_
      cases elif with
      | true => exact yields_bind fun _ => yields_pure rfl
      | false =>
        refine yields_bind fun else_ => ?_
        cases else_ <;> exact yields_bind fun _ => yields_pure rfl
    refine yields_bind fun condition => yields_bind fun then_ => ?_
    cases then_ with
    | true => exact branches condition
    | false => exact yields_bind fun _ => branches condition

theorem givesConstruct_fixedTerm (hf : f.opensConstruct = true) :
    GivesConstruct (fixedTerm r fuel f line) := by
  have two {α β : Type} {x : Parse α} {y : α → Parse β} {make : α → β → Expr}
      (h : ∀ a b, (make a b).isConstruct = true) :
      GivesConstruct (x >>= fun a => y a >>= fun b => pure (make a b)) :=
    yields_bind fun a => yields_bind fun b => yields_pure (h a b)
  cases f with
  | ifWord => exact givesConstruct_if fuel
  | whileWord | untilWord => exact two fun _ _ => rfl
  | forWord =>
    exact yields_bind fun _ => yields_bind fun _ => two fun _ _ => rfl
  | defWord => exact yields_bind fun _ => two fun _ _ => rfl
  | classWord =>
    exact yields_bind fun _ => yields_bind fun _ => two fun _ _ => rfl
  | moduleWord => exact yields_bind fun _ => two fun _ _ => rfl
  | _ => cases hf

theorem unprefixed_construct (hf : f.opensConstruct = true) (hl : l.token = .fixed f) :
    Unprefixed l := by
  obtain ⟨_, line, spaced⟩ := l
  cases hl
  cases f <;> first | exact ⟨rfl, rfl, rfl⟩ | cases hf

/-- A construct with nothing joined to it is the same under the restriction, or it breaks off at
one of its tokens. -/
theorem outcome_construct {fuel : Nat} (hl : l.token = .fixed f) (hf : f.opensConstruct = true)
    (hk : k.isConstruct = true)
    (alone : parse (fuel + 2) .expression ⟨s.push l, false⟩ = .ok k u)
    (ends : ∀ o, Faces u o → Over o) :
    u.noDo = false ∧ (∃ o, Faces u o) ∧
      Outcome .firm s k u (parse (fuel + 2) .expression ⟨s.push l, true⟩) := by
  have opens := unprefixed_construct hf hl
  rw [parse_unprefixed opens] at alone ⊢
  obtain ⟨k', v, hterm, hrest⟩ := exists_of_bind_ok alone
  have construct : fixedTerm (parse (fuel + 1)) (fuel + 1) f l.line ⟨s, false⟩ = .ok k' v :=
    (term_fixed hl).symm.trans hterm
  have word := Expr.isWord_of_construct (givesConstruct_fixedTerm hf _ _ _ construct)
  rcases remainder_grows word hrest with joined | ⟨rfl, o, looked⟩
  · rw [Expr.isJoined_of_construct hk] at joined
    cases joined
  have restrained : Restrains .firm (fixedTerm (parse (fuel + 1)) (fuel + 1) f l.line)
      (fixedTerm (parse (fuel + 1)) (fuel + 1) f l.line) :=
    construct_congr restrains_congruence (fuel + 1) f trivial
  obtain ⟨tokens, noDo⟩ := v
  obtain rfl : noDo = false := restrained.setting construct
  obtain ⟨tokens', noDo'⟩ := u
  obtain rfl : noDo' = false := restrains_peek.setting looked
  refine ⟨rfl, ⟨o, faces_of_peek looked⟩, ?_⟩
  have outcome := restrained.along (by decide) construct
  cases hs : fixedTerm (parse (fuel + 1)) (fuel + 1) f l.line ⟨s, true⟩ with
  | ok k' v =>
    rw [hs] at outcome
    rcases outcome with ⟨rfl, rfl⟩ | ⟨no, _⟩
    · have tail : Tail (remainder (parse (fuel + 1)) (fuel + 1) (fuel + 1) l.line) :=
        tail_remainder fuel l.line
      have rest := tail.stops word (peek_under looked true) (ends o (faces_of_peek looked))
      rw [bind_ok ((term_fixed hl).trans hs), rest]
      exact .inl ⟨rfl, rfl⟩
    · cases no
  | error e v =>
    rw [hs] at outcome
    rw [bind_error ((term_fixed hl).trans hs)]
    exact outcome
  | unfinished =>
    rw [bind_unfinished ((term_fixed hl).trans hs)]
    trivial

end

/-! ## The construct as the second argument -/

section
variable {fuel : Nat} {i : Int64} {n : String} {k : Expr} {u v : Parser} {noDo : Bool}
  {t s s' s'' : TokenStream} {w a c l : Lexeme} {o : Option Lexeme} {e : SyntaxError}
  (hw : w.token = .name n) (ha : a.token = .integer i) (gap : a.spaced = true)
  (hc : c.token = .fixed .comma) (hl : l.token ≠ .fixed .newline)
  (nextArgument : t.next = (.ok (some a), s'')) (nextComma : s''.next = (.ok (some c), s'))
  (next : s'.next = (.ok (some l), s))

include ha hc nextComma in
theorem literal_first :
    parse (fuel + 2) .expression ⟨s''.push a, noDo⟩ =
      .ok (.literal (.integer i)) ⟨s'.push c, noDo⟩ := by
  have looked : peek ⟨s'', noDo⟩ = .ok (some c) ⟨s'.push c, noDo⟩ := peek_token nextComma
  have opens : Unprefixed a := by refine ⟨?_, ?_, ?_⟩ <;> rw [ha] <;> rfl
  have ends : Ends (.literal (.integer i)) (some c) := by
    obtain ⟨_, line, spaced⟩ := c
    cases hc
    constructor <;> rfl
  rw [parse_unprefixed opens, bind_ok (term_integer ha), remainder_ends looked ends fuel a.line]
  refine accept_passes (faces_of_peek looked) ?_
  rw [Option.any_some, hc]
  rfl

include ha hc hl nextComma next in
/-- A first argument and a comma are taken, and the next argument is read under the
restriction. -/
theorem bareArguments_second :
    bareArguments (parse (fuel + 2)) (fuel + 2) ⟨s''.push a, noDo⟩ =
      restricted true (parse (fuel + 2) .expression >>= fun k =>
        collect (commaThen do
          skipNewlines (fuel + 2)
          parse (fuel + 2) .expression) (fuel + 1) >>= fun rest =>
          pure (.literal (.integer i) :: k :: rest)) ⟨s.push l, noDo⟩ := by
  have skipped : skipNewlines (fuel + 2) ⟨s', true⟩ = .ok () ⟨s.push l, true⟩ := by
    refine skipNewlines_stop (peek_token next) ?_
    cases h : l.token.isFixed .newline with
    | false => exact h
    | true => exact absurd (eq_of_isFixed h) hl
  refine restricted_congr_at ?_ noDo
  rw [bind_ok (literal_first ha hc nextComma)]
  refine (bind_congr_left (collect_comma (by rw [hc]; rfl) (fuel + 1))).trans ?_
  simp only [bind_assoc, bind_ok skipped]
  rfl

include hw ha gap nextArgument in
theorem call_second :
    parse (fuel + 3) .expression ⟨t.push w, false⟩ =
      callWith (bareArguments (parse (fuel + 2)) (fuel + 2)) (parse (fuel + 2)) (fuel + 2) (.call n)
        (ending (parse (fuel + 2)) (fuel + 2) w.line)
        ⟨s''.push a, false⟩ := by
  have argument : Argument a := by
    refine ⟨?_, gap⟩
    unfold beginsArgument
    rw [ha]
  exact name_bare hw (peek_token (p := ⟨t, false⟩) nextArgument) argument

include hw ha gap hc hl nextArgument nextComma next

theorem call_second_ok (hu : u.noDo = false) (faces : Faces u o) (ends : Over o)
    (h : parse (fuel + 2) .expression ⟨s.push l, true⟩ = .ok k { u with noDo := true }) :
    parse (fuel + 3) .expression ⟨t.push w, false⟩ =
      .ok (.call n [.literal (.integer i), k]) u := by
  obtain ⟨tokens, _⟩ := u
  cases hu
  have arguments : bareArguments (parse (fuel + 2)) (fuel + 2) ⟨s''.push a, false⟩ =
      .ok [.literal (.integer i), k] ⟨tokens, false⟩ := by
    rw [bareArguments_second ha hc hl nextComma next]
    refine restricted_ok (p := ⟨s.push l, false⟩) (q := ⟨tokens, true⟩) ?_
    exact (bind_ok h).trans (bind_ok (collect_stop (peek_under faces true)
      (ends.passes (by decide) (by decide)) fuel))
  have block : withBlock (parse (fuel + 2)) [.literal (.integer i), k] (fuel + 2) ⟨tokens, false⟩ =
      .ok [.literal (.integer i), k] ⟨tokens, false⟩ := bind_ok (blockTrailer_over faces ends)
  rw [call_second hw ha gap nextArgument]
  exact (bind_ok arguments).trans ((bind_ok block).trans ((tail_ending w.line).stops rfl faces ends))

theorem call_second_error
    (h : parse (fuel + 2) .expression ⟨s.push l, true⟩ = .error e v) :
    ∃ v', parse (fuel + 3) .expression ⟨t.push w, false⟩ = .error e v' := by
  refine ⟨{ v with noDo := false }, ?_⟩
  rw [call_second hw ha gap nextArgument]
  refine bind_error ?_
  rw [bareArguments_second ha hc hl nextComma next]
  exact restricted_error (bind_error h)

theorem call_second_unfinished
    (h : parse (fuel + 2) .expression ⟨s.push l, true⟩ = .unfinished) :
    parse (fuel + 3) .expression ⟨t.push w, false⟩ = .unfinished := by
  rw [call_second hw ha gap nextArgument]
  refine bind_unfinished ?_
  rw [bareArguments_second ha hc hl nextComma next]
  exact restricted_unfinished (bind_unfinished h)

end

/-! ## Texts of constructs -/

/-- The text is a construct that is closed by an `end` of its own, and nothing else. -/
structure IsConstructText (text : String) (k : Expr) : Prop where
  opens : ∃ l s f, (TokenStream.ofString text).next = (.ok (some l), s) ∧ l.token = .fixed f ∧
    f.opensConstruct = true
  alone : ∃ rest, parseProgram text = .ok [k] rest
  closed : k.isConstruct = true

theorem opening_ne_separator {f : Fixed} (hf : f.opensConstruct = true) :
    separates (.fixed f) = false := by
  cases f <;> first | rfl | cases hf

/-- The tokens in front of the text, as they are read. -/
theorem front_tokens {n text : String} (hn : IsName n) {l : Lexeme} {s : TokenStream}
    (next : (TokenStream.ofString text).next = (.ok (some l), s)) :
    ∃ t s'' s' : TokenStream,
      (TokenStream.ofString (n ++ " 1, " ++ text)).next = (.ok (some ⟨.name n, 1, false⟩), t) ∧
      t.next = (.ok (some ⟨.integer 1, 1, true⟩), s'') ∧
      s''.next = (.ok (some ⟨.fixed .comma, 1, false⟩), s') ∧
      s'.next = (.ok (some { l with spaced := true }), s) := by
  have one : Spelling (.integer 1) ['1'] :=
    .integer (by decide) (List.forall_mem_singleton.mpr rfl) rfl
  have blank : ∀ x : List Char, Loose (' ' :: x) := fun x d hd => .inl (Option.some.inj hd).symm
  have source : (n ++ " 1, " ++ text).toList =
      n.toList ++ ' ' :: '1' :: ',' :: ' ' :: text.toList := by
    rw [String.toList_append, String.toList_append, List.append_assoc]
    rfl
  refine ⟨⟨' ' :: '1' :: ',' :: ' ' :: text.toList, 1, []⟩, ⟨',' :: ' ' :: text.toList, 1, []⟩,
    ⟨' ' :: text.toList, 1, []⟩, ?_, ?_, ?_, next_behind_blank next⟩
  · unfold TokenStream.ofString
    rw [source]
    exact next_spelled (spelling_name hn) ((blank _).apart _) 1
  · exact next_behind_blank (next_spelled one (apart_of (a := []) rfl (.inl (by decide))) 1)
  · exact next_spelled (.mark (f := .comma) (by decide) (by decide)) ((blank _).apart _) 1

/-- A bound for the runs of the construct by itself and as an argument. -/
theorem exists_bound (n text : String) : ∃ m,
    (Parser.ofString (n ++ " 1, " ++ text)).fuel = m + 3 ∧
      (Parser.ofString text).fuel ≤ m + 2 := by
  refine ⟨n.length + text.length + 3, ?_, ?_⟩
  · change 0 + (n ++ " 1, " ++ text).length + 2 = _
    rw [String.length_append, String.length_append]
    change 0 + (n.length + 4 + text.length) + 2 = _
    omega
  · change 0 + text.length + 2 ≤ _
    omega

/-- The run of the construct by itself, and what comes of it under the restriction. -/
theorem IsConstructText.runs {text : String} {k : Expr} (h : IsConstructText text k) :
    ∃ l s, (TokenStream.ofString text).next = (.ok (some l), s) ∧ l.token ≠ .fixed .newline ∧
      ∀ m, (Parser.ofString text).fuel ≤ m + 2 → ∃ o u q, u.noDo = false ∧ Faces u o ∧ Over o ∧
        endOfCommand u = .ok () q ∧ q.Gives (.ok []) ∧
        Outcome .firm s k u
          (parse (m + 2) .expression ⟨s.push { l with spaced := true }, true⟩) := by
  obtain ⟨⟨l, s, f, next, hl, hf⟩, alone, closed⟩ := h
  have ne_separator : separates l.token = false := by rw [hl]; exact opening_ne_separator hf
  refine ⟨l, s, next, fun newline => ?_, fun m bound => ?_⟩
  · rw [newline] at ne_separator
    cases ne_separator
  obtain ⟨q, run, last⟩ := (gives_iff_ok.mpr alone).exists_command next ne_separator
  obtain ⟨_, u, hu, run⟩ := exists_of_bind_ok (run (m + 2) bound)
  obtain ⟨_, _, hend, run⟩ := exists_of_bind_ok run
  cases run
  have ends : ∀ o, Faces u o → Over o := fun o faces => over_of_last faces hend last
  obtain ⟨setting, ⟨o, faces⟩, outcome⟩ := outcome_construct hl hf closed hu ends
  rw [gapFree_parse (m + 2) s l true true] at outcome
  exact ⟨o, u, q, setting, faces, ends o faces, hend, last, outcome⟩

/-- Behind the first argument of a call a construct is what it is by itself, or the program breaks
off at a `do` of the construct. -/
theorem nested_construct {n text : String} {k : Expr} (hn : IsName n)
    (h : IsConstructText text k) :
    (∃ rest, parseProgram (n ++ " 1, " ++ text) =
      .ok [.call n [.literal (.integer 1), k]] rest) ∨
    ∃ (d : Lexeme) (rest : Parser), Ahead d (TokenStream.ofString text) ∧
      d.token = .fixed .doWord ∧
      parseProgram (n ++ " 1, " ++ text) = .error ⟨.endOfCommandExpected, d.line⟩ rest := by
  obtain ⟨l, s, next, ne_newline, runs⟩ := h.runs
  obtain ⟨t, s'', s', nextName, nextOne, nextComma, nextConstruct⟩ := front_tokens hn next
  obtain ⟨m, bound, inner⟩ := exists_bound n text
  obtain ⟨o, u, q, setting, faces, ends, hend, last, outcome⟩ := runs m inner
  have named : (⟨.name n, 1, false⟩ : Lexeme).token = .name n := rfl
  have ne_newline : ({ l with spaced := true } : Lexeme).token ≠ .fixed .newline := ne_newline
  cases hx : parse (m + 2) .expression ⟨s.push { l with spaced := true }, true⟩ with
  | ok k' u' =>
    rw [hx] at outcome
    rcases outcome with ⟨rfl, rfl⟩ | ⟨no, _⟩
    · have call := call_second_ok named rfl rfl rfl ne_newline nextOne nextComma nextConstruct
        setting faces ends hx
      exact .inl (gives_iff_ok.mp (Parser.gives_command nextName rfl
        ((bind_ok call).trans (bind_ok hend)) last))
    · cases no
  | error e v =>
    rw [hx] at outcome
    obtain ⟨d, ahead, hd, rfl⟩ := outcome
    obtain ⟨v', call⟩ := call_second_error named rfl rfl rfl ne_newline nextOne nextComma
      nextConstruct hx
    obtain ⟨rest, broken⟩ := gives_iff_error.mp
      (Parser.gives_badCommand (p := .ofString (n ++ " 1, " ++ text)) nextName rfl
        (bind_error call))
    exact .inr ⟨d, rest, .later next ahead, hd, broken⟩
  | unfinished =>
    have call := call_second_unfinished named rfl rfl rfl ne_newline nextOne nextComma
      nextConstruct hx
    refine absurd ?_ (Parser.command_ne_unfinished
      (p := .ofString (n ++ " 1, " ++ text)) nextName rfl)
    rw [bound]
    exact bind_unfinished call

/-- A loop with its own `do`, and in it a block in braces. -/
theorem nested_construct_loop :
    IsName "f" ∧
    IsConstructText "while x do\n y.each \x7b |z| z \x7d\nend"
      (.whileLoop (.name "x") (.dot (.name "y") "each" [.block ["z"] (.name "z")])) ∧
    ((∃ rest, parseProgram ("f" ++ " 1, " ++ "while x do\n y.each \x7b |z| z \x7d\nend") =
      .ok [.call "f" [.literal (.integer 1), .whileLoop (.name "x")
        (.dot (.name "y") "each" [.block ["z"] (.name "z")])]] rest) ∨
    ∃ (d : Lexeme) (rest : Parser),
      Ahead d (TokenStream.ofString "while x do\n y.each \x7b |z| z \x7d\nend") ∧
      d.token = .fixed .doWord ∧
      parseProgram ("f" ++ " 1, " ++ "while x do\n y.each \x7b |z| z \x7d\nend") =
        .error ⟨.endOfCommandExpected, d.line⟩ rest) := by
  have name : IsName "f" := ⟨by decide, rfl⟩
  have text : IsConstructText "while x do\n y.each \x7b |z| z \x7d\nend"
      (.whileLoop (.name "x") (.dot (.name "y") "each" [.block ["z"] (.name "z")])) := by
    refine ⟨⟨_, _, .whileWord, rfl, rfl, rfl⟩, gives_iff_ok.mp ?_, rfl⟩
    change (parseProgram "while x do\n y.each \x7b |z| z \x7d\nend").answer = _
    cbv
  exact ⟨name, text, nested_construct name text⟩

/-- The `do` in the body opens a block when the construct stands alone, and nothing as soon as the
construct is an argument. -/
theorem nested_construct_broken :
    IsName "f" ∧
    IsConstructText "if c\n x.each do |y| y end\nend"
      (.ifElse (.name "c") (.dot (.name "x") "each" [.block ["y"] (.name "y")]) none) ∧
    ¬∃ rest, parseProgram ("f" ++ " 1, " ++ "if c\n x.each do |y| y end\nend") =
      .ok [.call "f" [.literal (.integer 1), .ifElse (.name "c")
        (.dot (.name "x") "each" [.block ["y"] (.name "y")]) none]] rest := by
  have broken : (parseProgram ("f" ++ " 1, " ++ "if c\n x.each do |y| y end\nend")).answer =
      some (.error ⟨.endOfCommandExpected, 2⟩) := by cbv
  refine ⟨⟨by decide, rfl⟩, ⟨⟨_, _, .ifWord, rfl, rfl, rfl⟩, gives_iff_ok.mp ?_, rfl⟩, ?_⟩
  · change (parseProgram "if c\n x.each do |y| y end\nend").answer = _
    cbv
  · rintro ⟨rest, h⟩
    rw [h] at broken
    cases broken

end ObjectLang
