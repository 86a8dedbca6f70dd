import ObjectLang.Proofs.Parse.Levels

/-!
# Parts of printed programs

Lists between brackets, commands in sequence, headers, parameters and the names in
definitions: how they may be printed, and that they are read back.
-/

namespace ObjectLang

open Parse Grammar

/-- A token with any gap in front of it. -/
abbrev tok (t : Token) : Piece := ⟨t, false⟩

abbrev mark (f : Fixed) : Piece := ⟨.fixed f, false⟩

/-- A fixed token right behind the one before it. -/
abbrev touching (f : Fixed) : Piece := ⟨.fixed f, true⟩

theorem exists_map {α β : Type} {f : β → α} {p : β → Prop} {l : List α}
    (h : ∀ a ∈ l, ∃ b, f b = a ∧ p b) : ∃ bs : List β, bs.map f = l ∧ ∀ b ∈ bs, p b := by
  induction l with
  | nil =>
    refine ⟨[], rfl, ?_⟩
    intro b hb
    cases hb
  | cons a l ih =>
    obtain ⟨b, hb, hp⟩ := h a List.mem_cons_self
    obtain ⟨bs, hbs, hps⟩ := ih fun a ha => h a (List.mem_cons_of_mem _ ha)
    refine ⟨b :: bs, by rw [List.map_cons, hb, hbs], ?_⟩
    intro c hc
    rcases List.mem_cons.mp hc with rfl | hc
    · exact hp
    · exact hps c hc

section
variable {α : Type} {nd : Bool} {A B C : List Piece}

/-! ## Where expressions begin and end -/

/-- The pieces do not begin with an end of an expression, or with a bar. -/
def Begins (A : List Piece) : Prop :=
  ∃ p qs, A = p :: qs ∧ stops true p.token = false ∧ p.token.isFixed .pipe = false

theorem Begins.append (h : Begins A) (B : List Piece) : Begins (A ++ B) := by
  obtain ⟨p, qs, e, hp⟩ := h
  exact ⟨p, qs ++ B, by rw [e]; rfl, hp⟩

theorem Begins.length_pos (h : Begins A) : 0 < A.length := by
  obtain ⟨p, qs, e, _⟩ := h
  rw [e]
  exact Nat.succ_pos _

theorem Begins.headIs (h : Begins A) {f : Fixed} (hf : stops true (.fixed f) = true) :
    headIs A f = false := by
  obtain ⟨p, qs, e, hp, _⟩ := h
  rw [e]
  apply headIs_eq_false
  intro q hq ht
  cases hq
  rw [ht, hf] at hp
  cases hp

theorem Begins.headIs_pipe (h : Begins A) : Parse.headIs A .pipe = false := by
  obtain ⟨p, qs, e, _, hp⟩ := h
  rw [e]
  exact hp

theorem stops_mark {f : Fixed} (h : stops nd (.fixed f) = true) {g : Bool} :
    Stops nd (⟨.fixed f, g⟩ :: B) := by
  intro p hp
  cases hp
  exact h

theorem stops_separator {s : Piece} (h : Separators [s]) : Stops nd (s :: B) := by
  intro p hp
  cases hp
  rcases h s List.mem_cons_self with e | e <;> rw [e] <;> rfl

theorem stops_run {run : List Piece} (h : Separators run) (hB : Stops nd B) :
    Stops nd (run ++ B) := by
  cases run with
  | nil => exact hB
  | cons s run =>
    exact stops_separator (by simpa [Separators] using h s List.mem_cons_self)

theorem newlines_nil : Newlines [] := by
  intro p hp
  cases hp

theorem separators_nil : Separators [] := by
  intro p hp
  cases hp

theorem Parse.Newlines.separators {run : List Piece} (h : Newlines run) : Separators run :=
  fun p hp => .inl (h p hp)

/-! ## Lists between brackets -/

/-- Printed items with commas and ends of lines between them. A comma may stand behind the
last. -/
inductive Listed : List (α × List Piece) → List Piece → Prop where
  | none : Listed [] []
  | last {x : α × List Piece} {run : List Piece} : Newlines run → Listed [x] (x.2 ++ run)
  | more {x : α × List Piece} {xs : List (α × List Piece)} {run run' ps : List Piece} :
      Newlines run → Newlines run' → Listed xs ps →
      Listed (x :: xs) (x.2 ++ (run ++ mark .comma :: (run' ++ ps)))

theorem Listed.length_le {xs : List (α × List Piece)} {ps : List Piece} (h : Listed xs ps) :
    ∀ x ∈ xs, x.2.length ≤ ps.length := by
  induction h with
  | none =>
    intro x hx
    cases hx
  | last _ =>
    intro x hx
    rw [List.mem_singleton.mp hx]
    simp
  | more _ _ _ ih =>
    intro x hx
    rcases List.mem_cons.mp hx with rfl | hx
    · simp
    · have := ih x hx
      simp only [List.length_append, List.length_cons]
      omega

theorem Listed.headIs {xs : List (α × List Piece)} {ps : List Piece} (h : Listed xs ps)
    (hx : ∀ x ∈ xs, Begins x.2) {f : Fixed} (hf : stops true (.fixed f) = true)
    (hB : headIs B f = false) : Parse.headIs (ps ++ B) f = false := by
  cases h with
  | none => exact hB
  | last _ =>
    rw [List.append_assoc]
    exact ((hx _ List.mem_cons_self).append _).headIs hf
  | more _ _ _ =>
    rw [List.append_assoc]
    exact ((hx _ List.mem_cons_self).append _).headIs hf

def ClosesList (f : Fixed) : Prop :=
  f = .rparen ∨ f = .rbracket ∨ f = .rbrace

theorem ClosesList.stops {f : Fixed} (h : ClosesList f) : stops nd (.fixed f) = true := by
  rcases h with rfl | rfl | rfl <;> rfl

theorem takes_items {item : Parse α} {closing : Fixed} {lines : Nat} {g : Bool}
    {xs : List (α × List Piece)} {ps : List Piece} (h : Listed xs ps) (hc : ClosesList closing)
    (hb : ∀ x ∈ xs, Begins x.2)
    (hx : ∀ x ∈ xs, ∀ C, Stops nd C → Takes nd item (x.2 ++ C) x.1 C) :
    ∀ {k : Nat}, ps.length < k → ps.length < lines →
      Takes nd (items closing item lines k) (ps ++ ⟨.fixed closing, g⟩ :: B) (xs.map (·.1))
        (⟨.fixed closing, g⟩ :: B) := by
  have notComma : Parse.headIs (⟨.fixed closing, g⟩ :: B) .comma = false := by
    rcases hc with rfl | rfl | rfl <;> rfl
  have notLine : Parse.headIs (⟨.fixed closing, g⟩ :: B) .newline = false := by
    rcases hc with rfl | rfl | rfl <;> rfl
  induction h with
  | none =>
    intro k hk _
    cases k with
    | zero => exact absurd hk (Nat.not_lt_zero _)
    | succ k =>
      have here : Parse.headIs (⟨.fixed closing, g⟩ :: B) closing = true := decide_eq_true rfl
      refine (takes_nextIs closing).bind ?_
      rw [List.nil_append, here, if_pos rfl]
      exact takes_pure []
  | @last x run hrun =>
    intro k hk hl
    rw [List.append_assoc]
    cases k with
    | zero => exact absurd hk (Nat.not_lt_zero _)
    | succ k =>
      have begins := (hb x List.mem_cons_self).append (run ++ ⟨.fixed closing, g⟩ :: B)
      have one := hx x List.mem_cons_self (run ++ ⟨.fixed closing, g⟩ :: B)
        (stops_run hrun.separators (stops_mark hc.stops))
      refine (takes_nextIs closing).bind ?_
      rw [begins.headIs hc.stops, if_neg (by decide)]
      refine one.bind ((takes_skipNewlines hrun notLine ?_).bind ?_)
      · rw [List.length_append] at hl
        omega
      · refine (takes_not_accept notComma).bind ?_
        rw [if_neg (by decide)]
        exact takes_pure [x.1]
  | @more x xs run run' ps hrun hrun' h ih =>
    intro k hk hl
    simp only [List.length_append, List.length_cons] at hk hl
    have whole : x.2 ++ (run ++ mark .comma :: (run' ++ ps)) ++ ⟨.fixed closing, g⟩ :: B =
        x.2 ++ (run ++ mark .comma :: (run' ++ (ps ++ ⟨.fixed closing, g⟩ :: B))) := by simp
    rw [whole]
    cases k with
    | zero => exact absurd hk (Nat.not_lt_zero _)
    | succ k =>
      have begins := (hb x List.mem_cons_self).append
        (run ++ mark .comma :: (run' ++ (ps ++ ⟨.fixed closing, g⟩ :: B)))
      have one := hx x List.mem_cons_self
        (run ++ mark .comma :: (run' ++ (ps ++ ⟨.fixed closing, g⟩ :: B)))
        (stops_run hrun.separators (stops_mark (f := .comma) rfl))
      have rest := ih (fun y hy => hb y (List.mem_cons_of_mem _ hy))
        (fun y hy => hx y (List.mem_cons_of_mem _ hy)) (k := k) (by omega) (by omega)
      have next := h.headIs (fun y hy => hb y (List.mem_cons_of_mem _ hy)) (f := .newline) rfl
        notLine
      refine (takes_nextIs closing).bind ?_
      rw [begins.headIs hc.stops, if_neg (by decide)]
      refine one.bind ((takes_skipNewlines hrun rfl (by omega)).bind ?_)
      refine (takes_accept .comma).bind ?_
      rw [if_pos rfl]
      exact (takes_skipNewlines hrun' next (by omega)).bind (rest.bind (takes_pure _))

theorem takes_delimited {item : Parse α} {closing : Fixed} {g : Bool} {xs : List (α × List Piece)}
    {run ps : List Piece} (hrun : Newlines run) (h : Listed xs ps) (hc : ClosesList closing)
    (hb : ∀ x ∈ xs, Begins x.2)
    (hx : ∀ x ∈ xs, ∀ C, Stops nd C → Takes nd item (x.2 ++ C) x.1 C) {k : Nat}
    (hk : run.length + ps.length < k) :
    Takes nd (delimited closing item k) (run ++ (ps ++ ⟨.fixed closing, g⟩ :: B)) (xs.map (·.1))
      B := by
  have notLine : Parse.headIs (⟨.fixed closing, g⟩ :: B) .newline = false := by
    rcases hc with rfl | rfl | rfl <;> rfl
  refine (takes_skipNewlines hrun (h.headIs hb rfl notLine) (by omega)).bind ?_
  refine (takes_items h hc hb hx (by omega) (by omega)).bind ?_
  exact (takes_expect closing).bind (takes_pure _)

/-! ## Commands in sequence -/

/-- Printed commands with separators between them, and any number of them at both ends. -/
inductive Sequenced : List (α × List Piece) → List Piece → Prop where
  | none {run : List Piece} : Separators run → Sequenced [] run
  | last {x : α × List Piece} {run : List Piece} : Separators run → Sequenced [x] (run ++ x.2)
  | more {x : α × List Piece} {xs : List (α × List Piece)} {run ps : List Piece} {s : Piece} :
      Separators run → Separators [s] → Sequenced xs ps →
      Sequenced (x :: xs) (run ++ (x.2 ++ s :: ps))

theorem Sequenced.length_le {xs : List (α × List Piece)} {ps : List Piece}
    (h : Sequenced xs ps) : ∀ x ∈ xs, x.2.length ≤ ps.length := by
  induction h with
  | none _ =>
    intro x hx
    cases hx
  | last _ =>
    intro x hx
    rw [List.mem_singleton.mp hx]
    simp
  | more _ _ _ ih =>
    intro x hx
    simp only [List.length_append, List.length_cons]
    rcases List.mem_cons.mp hx with rfl | hx
    · omega
    · have := ih x hx
      omega

theorem Sequenced.headIs_pipe {xs : List (α × List Piece)} {ps : List Piece}
    (h : Sequenced xs ps) (hx : ∀ x ∈ xs, Begins x.2) (hB : headIs B .pipe = false) :
    headIs (ps ++ B) .pipe = false := by
  have behind : ∀ {run C : List Piece}, Separators run → headIs C .pipe = false →
      headIs (run ++ C) .pipe = false := by
    intro run C hrun hC
    cases run with
    | nil => exact hC
    | cons s run =>
      apply headIs_eq_false
      intro p hp e
      cases hp
      rcases hrun s List.mem_cons_self with e' | e' <;> rw [e'] at e <;> cases e
  cases h with
  | none hrun => exact behind hrun hB
  | last hrun =>
    rw [List.append_assoc]
    exact behind hrun ((hx _ List.mem_cons_self).append _).headIs_pipe
  | more hrun _ _ =>
    rw [List.append_assoc, List.append_assoc]
    exact behind hrun ((hx _ List.mem_cons_self).append _).headIs_pipe

theorem takes_endOfCommand_separator {s : Piece} (h : Separators [s]) :
    Takes nd endOfCommand (s :: B) () B := by
  refine takes_next fun l hl _ => ?_
  have hs := h s List.mem_cons_self
  have open' : l.token.closesBody = false := by
    rw [hl]
    rcases hs with e | e <;> rw [e] <;> rfl
  have ends : (l.token.isFixed .newline || l.token.isFixed .semicolon) = true := by
    rw [hl]
    rcases hs with e | e <;> rw [e] <;> rfl
  simp only [open', ends]
  exact takes_pure ()

theorem takes_endOfCommand_closed {p : Piece} (h : p.token.closesBody = true) :
    Takes nd endOfCommand (p :: B) () (p :: B) := by
  refine takes_next fun l hl hg => ?_
  simp only [hl, h]
  exact takes_push hl hg

theorem takes_endOfCommand_end : Takes nd endOfCommand [] () [] :=
  takes_next_end (takes_pure ())

/-- A step that gives nothing in front of `B`, and in front of a command gives the command, takes
all commands that are printed in front of `B`. -/
theorem takes_sequence {step : Parse (Option α)} {n : Nat} {xs : List (α × List Piece)}
    {ps : List Piece} (h : Sequenced xs ps) (hB : Stops nd B) (ends : Takes nd endOfCommand B () B)
    (stop : ∀ run, Separators run → run.length < n → Takes nd step (run ++ B) none B)
    (one : ∀ run, Separators run → run.length < n → ∀ x ∈ xs, ∀ C D, Stops nd C →
      Takes nd endOfCommand C () D → Takes nd step (run ++ (x.2 ++ C)) (some x.1) D)
    (hx : ∀ x ∈ xs, Begins x.2) :
    ∀ {k : Nat}, ps.length < k → ps.length < n →
      Takes nd (collect step k) (ps ++ B) (xs.map (·.1)) B := by
  induction h with
  | none hrun =>
    intro k hk hn
    exact takes_collect_stop (by omega) (stop _ hrun hn)
  | @last x run hrun =>
    intro k hk hn
    have pos := (hx x List.mem_cons_self).length_pos
    rw [List.length_append] at hk hn
    rw [List.append_assoc]
    cases k with
    | zero => exact absurd hk (Nat.not_lt_zero _)
    | succ k =>
      exact takes_collect_step (one run hrun (by omega) x List.mem_cons_self B B hB ends)
        (takes_collect_stop (by omega) (stop [] separators_nil (Nat.zero_lt_of_lt hn)))
  | @more x xs run ps s hrun hs h ih =>
    intro k hk hn
    simp only [List.length_append, List.length_cons] at hk hn
    have whole : run ++ (x.2 ++ s :: ps) ++ B = run ++ (x.2 ++ s :: (ps ++ B)) := by simp
    rw [whole]
    cases k with
    | zero => exact absurd hk (Nat.not_lt_zero _)
    | succ k =>
      have first := one run hrun (by omega) x List.mem_cons_self (s :: (ps ++ B)) (ps ++ B)
        (stops_separator hs) (takes_endOfCommand_separator hs)
      have rest := ih (fun run hr hl y hy => one run hr hl y (List.mem_cons_of_mem _ hy))
        (fun y hy => hx y (List.mem_cons_of_mem _ hy)) (k := k) (by omega) (by omega)
      exact takes_collect_step first rest

/-- The pieces begin with one of the tokens `closing`, all of which close a body. -/
def Closes (closing : List Fixed) (B : List Piece) : Prop :=
  (∀ f ∈ closing, (Token.fixed f).closesBody = true) ∧
    ∃ f ∈ closing, ∃ g C, B = ⟨.fixed f, g⟩ :: C

theorem stops_of_closesBody {t : Token} (h : t.closesBody = true) : stops nd t = true := by
  cases t with
  | fixed f => cases f <;> first | rfl | exact absurd h (by decide)
  | _ => exact absurd h Bool.false_ne_true

theorem Closes.stops {closing : List Fixed} (h : Closes closing B) : Stops nd B := by
  obtain ⟨all, f, hf, g, C, rfl⟩ := h
  exact stops_mark (stops_of_closesBody (all f hf))

theorem Closes.headIs {closing : List Fixed} (h : Closes closing B) {f : Fixed}
    (hf : (Token.fixed f).closesBody = false) : Parse.headIs B f = false := by
  obtain ⟨all, f', hf', g, C, rfl⟩ := h
  apply headIs_eq_false
  intro p hp e
  cases hp
  cases e
  rw [all f hf'] at hf
  cases hf

section
variable {r : Nested} {n : Nat} {e : Expr} {run A C D : List Piece}

theorem takes_command (he : Takes nd (r .expression) A e C)
    (hend : Takes nd endOfCommand C () D) : Takes nd (command r) A e D :=
  he.bind (hend.bind (takes_pure e))

theorem takes_bodyCommand_stop {closing : List Fixed} (hrun : Separators run) (hn : run.length < n)
    (h : Closes closing B) : Takes nd (bodyCommand? r closing n) (run ++ B) none B := by
  refine (takes_skipSeparators hrun (h.headIs rfl) (h.headIs rfl) hn).bind ?_
  obtain ⟨all, f, hf, g, C, rfl⟩ := h
  refine takes_peek fun l hl _ => ?_
  have here : closing.any l.token.isFixed = true := by
    rw [List.any_eq_true]
    exact ⟨f, hf, by rw [hl]; exact decide_eq_true rfl⟩
  simp only [here]
  exact takes_pure none

theorem takes_bodyCommand {closing : List Fixed} (hrun : Separators run) (hn : run.length < n)
    (hc : ∀ f ∈ closing, (Token.fixed f).closesBody = true) (hA : Begins A)
    (he : Takes nd (r .expression) A e C) (hend : Takes nd endOfCommand C () D) :
    Takes nd (bodyCommand? r closing n) (run ++ A) (some e) D := by
  refine (takes_skipSeparators hrun (hA.headIs rfl) (hA.headIs rfl) hn).bind ?_
  obtain ⟨p, qs, rfl, hp, _⟩ := hA
  refine takes_peek fun l hl _ => ?_
  have here : closing.any l.token.isFixed = false := by
    rw [List.any_eq_false]
    intro f hf h
    rw [hl] at h
    rw [eq_of_isFixed h, stops_of_closesBody (hc f hf)] at hp
    cases hp
  simp only [here]
  exact (takes_command he hend).bind (takes_pure _)

theorem takes_commandList {closing : List Fixed} {xs : List (Expr × List Piece)} {ps : List Piece}
    (h : Sequenced xs ps) (hB : Closes closing B) (hb : ∀ x ∈ xs, Begins x.2)
    (hx : ∀ x ∈ xs, ∀ C, Stops nd C → Takes nd (r .expression) (x.2 ++ C) x.1 C)
    (hn : ps.length < n) : Takes nd (commandList r closing n) (ps ++ B) (xs.map (·.1)) B := by
  have ends : Takes nd endOfCommand B () B := by
    obtain ⟨all, f, hf, g, C, rfl⟩ := hB
    exact takes_endOfCommand_closed (all f hf)
  refine takes_sequence h hB.stops ends ?_ ?_ hb hn hn
  · intro run hrun hl
    exact takes_bodyCommand_stop hrun hl hB
  · intro run hrun hl x hxs C D hC hend
    exact takes_bodyCommand hrun hl hB.1 ((hb x hxs).append C) (hx x hxs C hC) hend

theorem takes_program {xs : List (Expr × List Piece)} {ps : List Piece} (h : Sequenced xs ps)
    (hb : ∀ x ∈ xs, Begins x.2)
    (hx : ∀ x ∈ xs, ∀ C, Stops nd C → Takes nd (parse n .expression) (x.2 ++ C) x.1 C)
    (hn : ps.length < n) : Takes nd (program n) ps (xs.map (·.1)) [] := by
  have stops : Stops nd [] := by
    intro p hp
    cases hp
  rw [← List.append_nil ps]
  refine takes_sequence h stops takes_endOfCommand_end ?_ ?_ hb hn hn
  · intro run hrun hl
    exact (takes_skipSeparators hrun rfl rfl hl).bind (takes_peek_end (takes_pure none))
  · intro run hrun hl x hxs C D hC hend
    have begins := (hb x hxs).append C
    have taken := takes_command (hx x hxs C hC) hend
    refine (takes_skipSeparators hrun (begins.headIs rfl) (begins.headIs rfl) hl).bind ?_
    obtain ⟨p, qs, e, _⟩ := begins
    rw [e] at taken ⊢
    exact takes_peek fun l _ _ => taken.bind (takes_pure _)

end

/-! ## Headers and bodies -/

def HeaderEnd (f : Fixed) (p : Piece) : Prop :=
  p = mark f ∨ Separators [p]

theorem takes_headerEnd {s : Piece} (h : Separators [s]) : Takes nd headerEnd (s :: B) () B := by
  have hs := h s List.mem_cons_self
  refine (takes_acceptSeparator hs).bind ?_
  rw [if_pos rfl]
  exact takes_pure ()

theorem takes_header {β : Type} {f : Fixed} {p : Piece} {x : Unit → Parse β} {b : β}
    (h : HeaderEnd f p) (hn : f ≠ .newline) (hs : f ≠ .semicolon)
    (hx : Takes nd (x ()) B b C) :
    Takes nd (accept f >>= fun found => if found = true then pure () >>= x else headerEnd >>= x)
      (p :: B) b C := by
  rcases h with rfl | h
  · refine (takes_accept f).bind ?_
    rw [if_pos rfl]
    exact (takes_pure ()).bind hx
  · have other : headIs (p :: B) f = false := by
      apply headIs_eq_false
      intro q hq e
      cases hq
      rcases h p List.mem_cons_self with e' | e'
      · rw [e'] at e
        cases e
        exact hn rfl
      · rw [e'] at e
        cases e
        exact hs rfl
    refine (takes_not_accept other).bind ?_
    rw [if_neg (by decide)]
    exact (takes_headerEnd h).bind hx

theorem takes_bodyUntilEnd {r : Nested} {k : Nat} {es : List Expr} {g : Bool}
    (h : Takes nd (commandList r [.endWord] k) A es (⟨.fixed .endWord, g⟩ :: B)) :
    Takes nd (bodyUntilEnd r k) A (.ofBody es) B :=
  h.bind ((takes_expect .endWord).bind (takes_pure _))

/-! ## Parameters -/

def ParamList (params : List String) (ps : List Piece) : Prop :=
  (params = [] ∧ ps = []) ∨ NameList params ps

/-- The parameters of a block, between bars unless there are none. -/
def BlockParams (params : List String) (ps : List Piece) : Prop :=
  (params = [] ∧ ps = []) ∨
    ∃ names, ParamList params names ∧ ps = mark .pipe :: (names ++ [mark .pipe])

theorem takes_parameterList {params : List String} {ps : List Piece} {closing : Fixed} {k : Nat}
    (h : ParamList params ps) (hc : closing ≠ .comma) (hk : ps.length ≤ k) :
    Takes nd (parameterList closing k) (ps ++ mark closing :: B) params B := by
  rcases h with ⟨rfl, rfl⟩ | h
  · refine (takes_accept closing).bind ?_
    rw [if_pos rfl]
    exact takes_pure []
  · have name : headIs (ps ++ mark closing :: B) closing = false := by
      cases h <;> rfl
    have comma : headIs (mark closing :: B) .comma = false := by
      apply headIs_eq_false
      intro q hq e
      cases hq
      cases e
      exact hc rfl
    refine (takes_not_accept name).bind ?_
    rw [if_neg (by decide)]
    exact (takes_nameList h comma hk).bind ((takes_expect closing).bind (takes_pure _))

/-- A block, with parameters or without: a body has no bar in front of it. -/
theorem takes_blockBody {r : Nested} {k : Nat} {closing : Fixed} {params : List String}
    {es : List Expr} {ns b : List Piece} (h : BlockParams params ns)
    (hb : headIs (b ++ mark closing :: B) .pipe = false)
    (hbody : Takes false (commandList r [closing] k) (b ++ mark closing :: B) es
      (mark closing :: B)) (hk : ns.length ≤ k) :
    Takes nd (blockBody r closing k) (ns ++ (b ++ mark closing :: B))
      (.block params (.ofBody es)) B := by
  have rest : ∀ params : List String, Takes false (do
      let body ← commandList r [closing] k
      expect closing
      pure (Expr.block params (.ofBody body))) (b ++ mark closing :: B)
      (.block params (.ofBody es)) B :=
    fun params => hbody.bind ((takes_expect closing).bind (takes_pure _))
  apply takes_restricted
  rcases h with ⟨rfl, rfl⟩ | ⟨names, hn, rfl⟩
  · refine (takes_not_accept hb).bind ?_
    rw [if_neg (by decide)]
    exact (takes_pure []).bind (rest [])
  · have whole : mark .pipe :: (names ++ [mark .pipe]) ++ (b ++ mark closing :: B) =
        mark .pipe :: (names ++ mark .pipe :: (b ++ mark closing :: B)) := by simp
    rw [whole]
    simp only [List.length_append, List.length_cons] at hk
    refine (takes_accept .pipe).bind ?_
    rw [if_pos rfl]
    exact (takes_parameterList hn (by decide) (by omega)).bind (rest params)

/-! ## Names in definitions -/

/-- A method name; a setter has its `=` right behind it. -/
inductive DefName : String → Token → List Piece → Prop where
  | plain {t : Token} {n : String} : t.methodName? = some n → DefName n t []
  | setter {t : Token} {n : String} : t.methodName? = some n →
      DefName (n ++ "=") t [touching .equals]

inductive DefTarget : Expr → List Piece → Prop where
  | name {n : String} {t : Token} {ps : List Piece} : DefName n t ps → t.isFixed .selfWord = false →
      DefTarget (.name n) (tok t :: ps)
  | dot {e : Expr} {n : String} {t u : Token} {ps : List Piece} :
      definitionReceiver? t = some e → DefName n u ps →
      DefTarget (.dot e n []) (tok t :: mark .dot :: tok u :: ps)
  | doubleColon {e : Expr} {n : String} {t u : Token} {ps : List Piece} :
      definitionReceiver? t = some e → DefName n u ps →
      DefTarget (.doubleColon e n) (tok t :: mark .doubleColon :: tok u :: ps)

inductive ClassName : Expr → List Piece → Prop where
  | one {n : String} : isConstant n = true → ClassName (.name n) [tok (.name n)]
  | more {e : Expr} {n : String} {ps : List Piece} : ClassName e ps → isConstant n = true →
      ClassName (.doubleColon e n) (ps ++ [mark .doubleColon, tok (.name n)])

theorem takes_setterName {n : String} {t : Token} {ps : List Piece} (h : DefName n t ps) :
    ∃ m, t.methodName? = some m ∧ ∀ nd B,
      Takes nd (setterName m) (ps ++ mark .lparen :: B) n (mark .lparen :: B) := by
  cases h with
  | plain ht =>
    refine ⟨n, ht, fun nd B => (takes_not_acceptTouching rfl).bind ?_⟩
    rw [if_neg (by decide)]
    exact takes_pure n
  | @setter t m ht =>
    refine ⟨m, ht, fun nd B => (takes_acceptTouching .equals).bind ?_⟩
    rw [if_pos rfl]
    exact takes_pure (m ++ "=")

theorem takes_plainTarget {n : String} {ps : List Piece} {l : Lexeme} (h : DefName n l.token ps)
    (hl : l.token.isFixed .selfWord = false) :
    Takes nd (plainTarget l) (ps ++ mark .lparen :: B) (.name n) (mark .lparen :: B) := by
  obtain ⟨m, hm, taken⟩ := takes_setterName h
  unfold plainTarget
  split
  · next e => rw [e] at hl; cases hl
  · simp only [hm]
    exact (taken nd B).bind (takes_pure _)

theorem takes_qualifiedTarget {e : Expr} {n : String} {u : Token} {ps : List Piece}
    (h : DefName n u ps) (doubleColon : Bool) :
    Takes nd (qualifiedTarget e)
      (mark (if doubleColon then .doubleColon else .dot) :: tok u :: (ps ++ mark .lparen :: B))
      (if doubleColon then .doubleColon e n else .dot e n []) (mark .lparen :: B) := by
  obtain ⟨m, hm, taken⟩ := takes_setterName h
  have name : Takes nd methodName (tok u :: (ps ++ mark .lparen :: B)) m
      (ps ++ mark .lparen :: B) := takes_nameBy hm
  cases doubleColon with
  | true =>
    refine (takes_accept .doubleColon).bind ?_
    rw [if_pos rfl]
    exact name.bind ((taken nd B).bind (takes_pure _))
  | false =>
    refine (takes_not_accept rfl).bind ?_
    rw [if_neg (by decide)]
    exact (takes_expect .dot).bind (name.bind ((taken nd B).bind (takes_pure _)))

theorem takes_definitionTarget {e : Expr} {ps : List Piece} (h : DefTarget e ps) :
    Takes nd definitionTarget (ps ++ mark .lparen :: B) e (mark .lparen :: B) := by
  refine takes_lineHere fun line => ?_
  cases h with
  | @name n t ps h ht =>
    refine takes_next fun l hl _ => ?_
    have dot : headIs (ps ++ mark .lparen :: B) .dot = false := by cases h <;> rfl
    have colon : headIs (ps ++ mark .lparen :: B) .doubleColon = false := by cases h <;> rfl
    have plain : Takes nd (plainTarget l) (ps ++ mark .lparen :: B) (.name n)
        (mark .lparen :: B) :=
      takes_plainTarget (by rw [hl]; exact h) (by rw [hl]; exact ht)
    refine (takes_nextIs .dot).bind ?_
    rw [List.append_eq, dot, if_neg (by decide)]
    refine (takes_nextIs .doubleColon).bind ?_
    rw [colon]
    split <;> exact plain
  | @dot e n t u ps he h =>
    refine takes_next fun l hl _ => ?_
    refine (takes_nextIs .dot).bind ?_
    refine (takes_pure true).bind ?_
    simp only [hl, he]
    exact takes_qualifiedTarget h false
  | @doubleColon e n t u ps he h =>
    refine takes_next fun l hl _ => ?_
    refine (takes_nextIs .dot).bind ?_
    refine (takes_nextIs .doubleColon).bind ?_
    simp only [hl, he]
    exact takes_qualifiedTarget h true

theorem takes_constantName {n : String} (h : isConstant n = true) :
    Takes nd constantName (tok (.name n) :: B) n B := by
  refine takes_lineHere fun line => takes_next fun l hl _ => ?_
  simp only [hl, h]
  exact takes_pure n

/-- The names of the modules around a class go into the name one by one, from the left. -/
theorem takes_className {e : Expr} {ps : List Piece} (h : ClassName e ps)
    (hB : headIs B .doubleColon = false) {k : Nat} (hk : ps.length ≤ k) :
    Takes nd (className k) (ps ++ B) e B := by
  -- The loop that goes on behind the name has to be read along with it.
  have goes : ∀ {e : Expr} {ps : List Piece}, ClassName e ps → ∀ {result : Expr} {C : List Piece},
      ps.length ≤ k → (∀ j, k + 1 ≤ j + ps.length → Takes nd (iterate (fun e => do
        if ← accept .doubleColon then
          let n ← constantName
          pure (some (.doubleColon e n))
        else pure none) j e) C result B) → Takes nd (className k) (ps ++ C) result B := by
    intro e ps h
    induction h with
    | one hn =>
      intro result C _ hC
      exact (takes_constantName hn).bind (hC k (Nat.le_refl _))
    | @more e n ps _ hn ih =>
      intro result C hk hC
      simp only [List.length_append, List.length_cons, List.length_nil] at hk hC
      rw [List.append_assoc]
      refine ih (by omega) fun j hj => ?_
      cases j with
      | zero => omega
      | succ j =>
        refine takes_iterate_step ((takes_accept .doubleColon).bind ?_) (hC j (by omega))
        rw [if_pos rfl]
        exact (takes_constantName hn).bind (takes_pure _)
  refine goes h hk fun j hj => takes_iterate_stop (by omega) ((takes_not_accept hB).bind ?_)
  rw [if_neg (by decide)]
  exact takes_pure none

end

end ObjectLang
