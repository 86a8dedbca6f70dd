import ObjectLang.Proofs.Eval.Calls
import ObjectLang.Proofs.Eval.Monotone

/-!
# What evaluation does

Evaluation in a frame writes locals of that frame and of new ones only. Each rule
passes this on from the nested tasks, one level at a time, so it holds of every
run, however deep, and whether it ends with a value or with a fault.
-/

namespace ObjectLang

open Store Eval

section
variable {r : Performer} (hr : r.Sound) {f : FrameId} {W : FrameId → Prop} (hw : W f) {s : Store}
  (h : s.Sound) (hf : s.HasFrame f)
include hr hw h hf

theorem does_expr (e : Expr) : Answers W s (r (.expr f e)) :=
  (hr.expr e h hf).widen fun _ eq => eq ▸ hw

theorem does_evalArgs (args : List Expr) :
    Does W s (evalArgs r f args) fun vs s' => ∀ v ∈ vs, s'.Knows v :=
  does_each h fun e _ _ e' => does_expr hr hw e'.sound (e'.grows.hasFrame hf) e

theorem does_onOperands (left right : Expr) {op : Value → Value → Eval Value}
    (hop : ∀ v w s', Effect W s s' → Answers W s' (op v w)) :
    Answers W s (onOperands r f left right op) := by
  refine (does_expr hr hw h hf left).bind fun v s' e _ => ?_
  refine (does_expr hr hw e.sound (e.grows.hasFrame hf) right).bind fun w s'' e' _ => ?_
  exact hop v w s'' (e.trans e' fun _ _ hg => hg)

/-! ## Names and calls -/

omit hw in
theorem does_evalName (n : String) : Answers W s (evalName r f n) := by
  unfold evalName
  split
  · have e : Effect W s s.tick := effect_tick h
    refine .add e ?_
    split
    · next v hv => exact does_pure e.sound (e.sound.constant? hv)
    · exact does_fail e.sound _
  · refine .read ?_
    split
    · next m hm => exact does_invoke hr h hf (.inl (h.lookup? hm)) (by nofun) (by nofun)
    · next v _ hv => exact does_pure h (h.lookup? hv)
    · refine (does_sendSelf? hr h hf n (by nofun)).bind fun o s' e ho => ?_
      cases o with
      | some v => exact does_pure e.sound (ho v rfl)
      | none => exact does_fail e.sound _

theorem does_evalCall (n : String) (args : List Expr) : Answers W s (evalCall r f n args) := by
  refine (does_evalArgs hr hw h hf args).bind fun vs s' e hvs => ?_
  have hf' := e.grows.hasFrame hf
  refine .read ?_
  split
  · next m hm => exact does_invoke hr e.sound hf' (.inl (e.sound.lookup? hm)) (by nofun) hvs
  · refine (does_sendSelf? hr e.sound hf' n hvs).bind fun o s'' e' ho => ?_
    cases o with
    | some v => exact does_pure e'.sound (ho v rfl)
    | none => exact .read (does_fail e'.sound _)

theorem does_evalDot (target : Expr) (n : String) (args : List Expr) :
    Answers W s (evalDot r f target n args) := by
  refine (does_expr hr hw h hf target).bind fun v s' e hv => ?_
  have hf' := e.grows.hasFrame hf
  refine (does_evalArgs hr hw e.sound hf' args).bind fun vs s'' e' hvs => ?_
  exact does_send hr e'.sound (e'.grows.hasFrame hf') (hv.grows e'.grows) n hvs

theorem does_evalDoubleColon (target : Expr) (n : String) :
    Answers W s (evalDoubleColon r f target n) := by
  refine (does_expr hr hw h hf target).bind fun v s' e hv => ?_
  refine (does_moduleValue e.sound hv).bind fun c s'' _ => ?_
  intro both
  obtain ⟨rfl, hc⟩ := both
  split
  · refine .read ?_
    split
    · next w hw => exact does_pure e.sound ((e.sound.constants c).get? hw)
    · exact .read (does_fail e.sound _)
  · exact does_send hr e.sound (e.grows.hasFrame hf) hv n (by nofun)

theorem does_evalAssignDot (target value : Expr) :
    Answers W s (evalAssignDot r f target value) := by
  cases target with
  | dot target n args =>
    refine (does_expr hr hw h hf target).bind fun v s' e hv => ?_
    have hf' := e.grows.hasFrame hf
    refine (does_expr hr hw e.sound hf' value).bind fun w s'' e' hw' => ?_
    refine (does_send hr e'.sound (e'.grows.hasFrame hf') (hv.grows e'.grows) _ ?_).bind
      fun _ t e'' _ => does_pure e''.sound (hw'.grows e''.grows)
    intro x hx
    rw [List.mem_singleton.mp hx]
    exact hw'
  | _ => exact does_typeFail h _

/-! ## Loops and sequences -/

theorem does_loopWhile (go : Bool) (condition body : Expr) (fuel : Nat) :
    Answers W s (loopWhile go (r (.expr f condition)) (r (.expr f body)) fuel) := by
  induction fuel generalizing s with
  | zero => trivial
  | succ fuel ih =>
    refine (does_expr hr hw h hf condition).bind fun v s' e _ => ?_
    have hf' := e.grows.hasFrame hf
    split
    · exact (does_expr hr hw e.sound hf' body).bind fun _ s'' e' _ =>
        ih e'.sound (e'.grows.hasFrame hf')
    · exact does_pure e.sound trivial

theorem does_evalForIn (n : String) (collection body : Expr) :
    Answers W s (evalForIn r f n collection body) := by
  refine (does_expr hr hw h hf collection).bind fun v s₁ e₁ hv => ?_
  refine (does_elements e₁.sound v).bind fun es s₂ e₂ he => ?_
  have e := e₁.trans e₂ fun _ _ hg => hg
  refine (does_elementsVisit e₂.sound he fun w s₃ e₃ hw' => ?_).bind fun _ s₃ e₃ _ =>
    does_pure e₃.sound ((hv.grows e₂.grows).grows e₃.grows)
  have e₄ := effect_setLocal e₃.sound hw n hw'
  have hf' := e₄.grows.hasFrame (e₃.grows.hasFrame (e.grows.hasFrame hf))
  refine .change e₄ ((does_expr hr hw e₄.sound hf' body).bind fun _ t e₅ _ => ?_)
  exact does_pure e₅.sound trivial

theorem does_sequenceFrom {last : Value} (hl : s.Knows last) (commands : List Expr) :
    Answers W s (sequenceFrom r f last commands) := by
  induction commands generalizing s last with
  | nil => exact does_pure h hl
  | cons c commands ih =>
    exact (does_expr hr hw h hf c).bind fun v s' e hv => ih e.sound (e.grows.hasFrame hf) hv

/-! ## Collections -/

theorem does_evalEntries {t : HashTable} (ht : s.HashSound t) (entries : List (Expr × Expr)) :
    Does W s (evalEntries r f t entries) fun t s' => s'.HashSound t := by
  induction entries generalizing s t with
  | nil => exact does_pure h ht
  | cons entry entries ih =>
    refine (does_expr hr hw h hf entry.1).bind fun given s₁ e₁ hg => ?_
    have hf₁ := e₁.grows.hasFrame hf
    refine (does_expr hr hw e₁.sound hf₁ entry.2).bind fun v s₂ e₂ hv => ?_
    have ht₂ := (ht.grows e₁.grows).grows e₂.grows
    refine (does_put e₂.sound ht₂ (hg.grows e₂.grows) hv).bind fun t' s₃ _ => ?_
    rintro ⟨rfl, ht'⟩
    exact ih e₂.sound (e₂.grows.hasFrame hf₁) ht'

theorem does_evalHash (entries : List (Expr × Expr)) : Answers W s (evalHash r f entries) := by
  have none : s.HashSound .empty := by intro e he; simp [HashTable.empty] at he
  refine (does_evalEntries hr hw h hf none entries).bind fun t s' e ht => ?_
  have e' := effect_addHash (W := W) e.sound ht
  exact .add e' (does_pure e'.sound (by simp [Knows, HasHash, addHash]))

theorem does_evalRange (lower upper : Expr) : Answers W s (evalRange r f lower upper) := by
  refine (does_expr hr hw h hf lower).bind fun v s' e _ => ?_
  refine (does_expr hr hw e.sound (e.grows.hasFrame hf) upper).bind fun w s'' e' _ => ?_
  split
  · exact does_pure e'.sound trivial
  · exact .read (.read (does_typeFail e'.sound _))

/-! ## Definitions -/

theorem does_defineOn (receiver : Expr) (n : String) :
    Does W s (defineOn r f receiver n) fun _ _ => True := by
  refine (does_expr hr hw h hf receiver).bind fun v s' e hv => ?_
  exact (does_singletonClass e.sound hv).bind fun _ s'' e' _ => does_pure e'.sound trivial

theorem does_definitionTarget (target : Expr) :
    Does W s (definitionTarget r f target) fun _ _ => True := by
  cases target with
  | name n =>
    exact (does_definitionOwner h hf).bind fun _ s' e _ => does_pure e.sound trivial
  | dot receiver n args => exact does_defineOn hr hw h hf receiver n
  | doubleColon receiver n => exact does_defineOn hr hw h hf receiver n
  | _ => exact does_typeFail h _

theorem does_evalDefine (target : Expr) (params : List String) (body : Expr) :
    Answers W s (evalDefine r f target params body) := by
  refine (does_definitionTarget hr hw h hf target).bind fun where_ s' e _ => ?_
  have hf' := e.grows.hasFrame hf
  have admits : ∀ n, s'.Admits (.defined ⟨n, params, body, (s'.frame f).enclosing⟩) :=
    fun _ => (e.sound.frame hf').enclosing
  refine .read ?_
  split
  · next c _ =>
    have e' := effect_setMethod (W := W) e.sound c where_.1 (admits where_.1)
    exact .change e' (does_pure e'.sound trivial)
  · have e' := effect_setLocal e.sound hw where_.1
      (v := .function (.defined ⟨where_.1, params, body, (s'.frame f).enclosing⟩)) (admits where_.1)
    exact .change e' (does_pure e'.sound trivial)

theorem does_classTarget (n : Expr) :
    Does W s (classTarget r f n) fun p s' => ∀ c, p.1 = some c → s'.Proper c := by
  cases n with
  | name n => exact .read (does_pure h (h.frame hf).enclosing)
  | doubleColon target n =>
    refine (does_expr hr hw h hf target).bind fun v s' e hv => ?_
    refine (does_moduleValue e.sound hv).bind fun c s'' _ => ?_
    intro both
    obtain ⟨rfl, hc⟩ := both
    refine does_pure e.sound ?_
    rintro _ ⟨⟩
    exact hc
  | _ => exact does_typeFail h _

theorem does_evalSuperclass (superclass : Option Expr) :
    Does W s (evalSuperclass r f superclass) fun p s' => ∀ c, p = some c → s'.Proper c := by
  cases superclass with
  | none => exact does_pure h nofun
  | some e =>
    refine (does_expr hr hw h hf e).bind fun v s' e hv => ?_
    refine (does_superclassValue e.sound hv).bind fun c s'' _ => ?_
    intro both
    obtain ⟨rfl, hc⟩ := both
    refine does_pure e.sound ?_
    rintro _ ⟨⟩
    exact hc

theorem does_evalClass (n : Expr) (superclass : Option Expr) (body : Expr) :
    Answers W s (evalClass r f n superclass body) := by
  refine (does_classTarget hr hw h hf n).bind fun p s₁ e₁ hp => ?_
  have hf₁ := e₁.grows.hasFrame hf
  refine (does_evalSuperclass hr hw e₁.sound hf₁ superclass).bind fun c s₂ e₂ hc => ?_
  have hf₂ := e₂.grows.hasFrame hf₁
  refine (does_openClass e₂.sound hf₂ (fun d hd => (hp d hd).grows e₂.grows) p.2 hc).bind
    fun d s₃ e₃ hd => ?_
  exact does_evalBody hr e₃.sound (e₃.grows.hasFrame hf₂) hd body

omit hw in
theorem does_evalModule (n : String) (body : Expr) : Answers W s (evalModule r f n body) := by
  refine .read ((does_openModule h hf (h.frame hf).enclosing n).bind fun c s' e hc => ?_)
  exact does_evalBody hr e.sound (e.grows.hasFrame hf) hc body

/-! ## All expressions -/

theorem does_evalExpr (fuel : Nat) (e : Expr) : Answers W s (evalExpr r fuel f e) := by
  cases e with
  | literal l => exact does_pure h (by cases l <;> trivial)
  | name n => exact does_evalName hr h hf n
  | selfRef => exact does_read h (Knows.ofOption (h.frame hf).self)
  | instanceVar n => exact does_evalInstanceVar h hf n
  | classVar n => exact does_evalClassVar h f n
  | arith op left right =>
    exact does_onOperands hr hw h hf left right fun v w _ e => does_arith e.sound op v w
  | compare op left right =>
    exact does_onOperands hr hw h hf left right fun v w _ e => does_compareBy e.sound op v w
  | negative e => exact (does_expr hr hw h hf e).bind fun v s' e' _ => does_negate e'.sound v
  | negation e =>
    exact (does_expr hr hw h hf e).bind fun v s' e' _ => does_pure e'.sound trivial
  | assign n e =>
    exact (does_expr hr hw h hf e).bind fun v s' e' hv => does_assignName e'.sound hw n hv
  | assignInstanceVar n e =>
    exact (does_expr hr hw h hf e).bind fun v s' e' hv => does_assignInstanceVar e'.sound f n hv
  | assignClassVar n e =>
    exact (does_expr hr hw h hf e).bind fun v s' e' hv => does_assignClassVar e'.sound f n hv
  | assignIndexed target index e =>
    refine (does_expr hr hw h hf target).bind fun t s₁ e₁ _ => ?_
    have hf₁ := e₁.grows.hasFrame hf
    refine (does_expr hr hw e₁.sound hf₁ index).bind fun i s₂ e₂ hi => ?_
    have hf₂ := e₂.grows.hasFrame hf₁
    refine (does_expr hr hw e₂.sound hf₂ e).bind fun v s₃ e₃ hv => ?_
    refine (does_setIndex e₃.sound t (hi.grows e₃.grows) hv).bind fun _ s₄ e₄ _ => ?_
    exact does_pure e₄.sound (hv.grows e₄.grows)
  | assignDot target e => exact does_evalAssignDot hr hw h hf target e
  | call n args => exact does_evalCall hr hw h hf n args
  | dot target n args => exact does_evalDot hr hw h hf target n args
  | doubleColon target n => exact does_evalDoubleColon hr hw h hf target n
  | ifElse condition thenBranch elseBranch =>
    refine (does_expr hr hw h hf condition).bind fun v s' e _ => ?_
    have hf' := e.grows.hasFrame hf
    split
    · exact does_expr hr hw e.sound hf' thenBranch
    · cases elseBranch with
      | some b => exact does_expr hr hw e.sound hf' b
      | none => exact does_pure e.sound trivial
  | whileLoop condition body => exact does_loopWhile hr hw h hf true condition body fuel
  | untilLoop condition body => exact does_loopWhile hr hw h hf false condition body fuel
  | forIn n collection body => exact does_evalForIn hr hw h hf n collection body
  | define target params body => exact does_evalDefine hr hw h hf target params body
  | classDef n superclass body => exact does_evalClass hr hw h hf n superclass body
  | moduleDef n body => exact does_evalModule hr h hf n body
  | array items =>
    exact (does_evalArgs hr hw h hf items).bind fun vs s' e hv =>
      does_newArray e.sound fun v hm => hv v (List.mem_toArray.mp hm)
  | hash entries => exact does_evalHash hr hw h hf entries
  | range lower upper => exact does_evalRange hr hw h hf lower upper
  | indexed target index =>
    exact does_onOperands hr hw h hf target index fun v w _ e => does_getIndex e.sound v w
  | block params body =>
    have e := effect_addBlock (W := W) h (b := ⟨params, body, f⟩) hf
    exact .add e (does_pure e.sound (by simp [Knows, HasBlock, addBlock]))
  | sequence commands => exact does_sequenceFrom hr hw h hf (by trivial) commands

end

/-! ## The evaluator -/

theorem perform_sound : ∀ fuel, (perform fuel).Sound
  | 0 => ⟨fun _ _ _ => trivial, fun _ _ _ _ _ => trivial⟩
  | fuel + 1 =>
    ⟨fun {_ f} e h hf => does_evalExpr (W := (· = f)) (perform_sound fuel) rfl h hf fuel e,
      fun h hf hm hv ha => does_invoke (perform_sound fuel) h hf hm hv ha⟩

theorem does_underBound {α : Type} {x : Nat → Eval α} {W : FrameId → Prop} {s : Store}
    {Q : α → Store → Prop} (hx : ∀ bound, Does W s (x bound) Q) (n : Nat) :
    Does W s (underBound x n) Q := by
  unfold Does at hx ⊢
  rcases underBound_cases x n s with e | ⟨bound, e⟩
  · rw [e]; trivial
  · rw [e]; exact hx bound

theorem performer_sound : performer.Sound :=
  ⟨fun e h hf => does_underBound (fun fuel => (perform_sound fuel).expr e h hf) _,
    fun h hf hm hv ha => does_underBound (fun fuel => (perform_sound fuel).invoke h hf hm hv ha) _⟩

end ObjectLang
