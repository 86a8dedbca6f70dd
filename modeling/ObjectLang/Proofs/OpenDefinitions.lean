import Mathlib
import ObjectLang.Proofs.ClassVariables
import ObjectLang.Proofs.ScopeTree

/-!
# Opening classes and modules

The body of a class or module runs in a definition that was there, which leaves the store as it is,
or in a new one, which adds one class and one binding to it. Otherwise a fault ends the evaluation
before anything is changed.
-/

namespace ObjectLang

open Store Eval

/-! ## What is opened -/

/-- A class or module to be opened in a container, or in the outermost frame. -/
structure BodyOpening where
  container : Option ClassId
  name : String
  kind : ClassKind
  /-- The value given as the superclass. -/
  given : Option Value
  body : Expr

namespace Store

/-- A class name as evaluated in the frame: the container, the bare name, and the store behind. -/
inductive Located (s : Store) (f : FrameId) : Expr → Option ClassId → String → Store → Prop where
  | name {n : String} : Located s f (.name n) (s.frame f).enclosing n s
  | qualified {target : Expr} {n : String} {c : ClassId} {t : Store} :
      eval f target s = .value (.cls c) t → Located s f (.doubleColon target n) (some c) n t

/-- A superclass as evaluated in the frame. -/
inductive Gives (s : Store) (f : FrameId) : Option Expr → Option Value → Store → Prop where
  | nothing : Gives s f none none s
  | value {e : Expr} {v : Value} {t : Store} : eval f e s = .value v t →
      Gives s f (some e) (some v) t

/-- What is to be opened once the expressions in front of the body are evaluated. -/
inductive Prepares (s : Store) (f : FrameId) : Expr → BodyOpening → Store → Prop where
  | classDef {name : Expr} {superclass : Option Expr} {body : Expr} {container : Option ClassId}
      {n : String} {given : Option Value} {s' t : Store} : s.Located f name container n s' →
      s'.Gives f superclass given t →
      Prepares s f (.classDef name superclass body) ⟨container, n, .cls, given, body⟩ t
  | moduleDef {n : String} {body : Expr} :
      Prepares s f (.moduleDef n body) ⟨(s.frame f).enclosing, n, .mod, none, body⟩ s

/-- What the name is bound to in a container, or in the outermost frame. -/
def bound? (s : Store) (container : Option ClassId) (n : String) : Option Value :=
  match container with
  | some c => (s.cls c).constants.get? n
  | none => (s.frame Machine.root).locals.get? n

/-- The opening is of a definition that is there: bound to its name, and of its kind. -/
structure Defines (s : Store) (o : BodyOpening) (c : ClassId) : Prop where
  bound : s.bound? o.container o.name = some (.cls c)
  kind : (s.cls c).kind = o.kind

/-- The value given as a superclass, if there is one, is the ordinary class asked for. -/
inductive Asks (s : Store) : Option Value → Option ClassId → Prop where
  | nothing : Asks s none none
  | ordinary {d : ClassId} : (s.cls d).kind = .cls → Asks s (some (.cls d)) (some d)

/-- The store `t` is `s` but for one binding, in a container or in the outermost frame. -/
structure BindsOnly (s t : Store) (container : Option ClassId) (n : String) (v : Value) : Prop where
  bound : ∀ m k, (∀ d, m = some d → s.HasClass d) →
    t.bound? m k = if m = container ∧ k = n then some v else s.bound? m k
  classes : ∀ d, t.cls d = { s.cls d with constants := (t.cls d).constants }
  outer : t.frame Machine.root =
    { s.frame Machine.root with locals := (t.frame Machine.root).locals }
  inner : ∀ f, f ≠ Machine.root → t.frame f = s.frame f
  sizes : t.classes.size = s.classes.size ∧ t.frames.size = s.frames.size
  others : t = { s with classes := t.classes, frames := t.frames }

/-- The class or module that an opening makes. -/
def newClass (s : Store) (o : BodyOpening) (metaclass superclass : ClassId) : ClassData where
  object := ⟨metaclass, .empty, none⟩
  name := o.container.elim o.name fun c => (s.cls c).name ++ "::" ++ o.name
  kind := o.kind
  superclass := some superclass
  enclosing := o.container
  methods := .empty
  constants := .empty
  classVars := .empty

/-- The store `t` is `s` with the one new class `c`, and with one binding, which leads to it. -/
structure Creates (s t : Store) (o : BodyOpening) (metaclass superclass c : ClassId) : Prop where
  fresh : ¬ s.HasClass c
  data : t.cls c = s.newClass o metaclass superclass
  binds : BindsOnly (s.addClass (s.newClass o metaclass superclass)).2 t o.container o.name (.cls c)

end Store

/-! ## Evaluation up to the body -/

theorem limit_evalBody (f : FrameId) (c : ClassId) (body : Expr) :
    Limit (fun fuel => evalBody (perform fuel) f c body) (evalBody performer f c body) :=
  (limit_const _).bind fun _ => limit_perform _

theorem limit_classTarget (f : FrameId) (n : Expr) :
    Limit (fun fuel => classTarget (perform fuel) f n) (classTarget performer f n) := by
  cases n with
  | doubleColon target n => exact (limit_perform _).bind fun _ => limit_const _
  | _ => exact limit_const _

theorem limit_evalSuperclass (f : FrameId) (superclass : Option Expr) :
    Limit (fun fuel => evalSuperclass (perform fuel) f superclass)
      (evalSuperclass performer f superclass) := by
  cases superclass with
  | none => exact limit_const _
  | some e => exact (limit_perform _).bind fun _ => limit_const _

/-- Without a bound, a class is evaluated by the rule for classes, its parts without a bound. -/
theorem eval_classDef (f : FrameId) (n : Expr) (superclass : Option Expr) (body : Expr) :
    eval f (.classDef n superclass body) = evalClass performer f n superclass body := by
  have rule : Limit (fun fuel => evalClass (perform fuel) f n superclass body)
      (evalClass performer f n superclass body) :=
    (limit_classTarget f n).bind fun _ => (limit_evalSuperclass f superclass).bind fun _ =>
      (limit_const _).bind fun c => limit_evalBody f c body
  exact (limit_perform _).later.unique rule

theorem eval_moduleDef (f : FrameId) (n : String) (body : Expr) :
    eval f (.moduleDef n body) = evalModule performer f n body := by
  have rule : Limit (fun fuel => evalModule (perform fuel) f n body)
      (evalModule performer f n body) :=
    (limit_const _).bind fun _ => (limit_const _).bind fun c => limit_evalBody f c body
  exact (limit_perform _).later.unique rule

/-- The definition that is there, unless another superclass is asked for. -/
def reopen (asked : Option ClassId) (c : ClassId) : Eval ClassId := do
  let current ← read fun s => (s.cls c).superclass
  if asked.isNone || asked = current then pure c
  else
    let name ← read fun s => (s.cls c).name
    typeFail (.superclassMismatch name)

/-- Opening a class and opening a module, as one step. -/
def openAs (f : FrameId) (o : BodyOpening) (asked : Option ClassId) : Eval ClassId := do
  match ← read (·.definition? f o.container o.name o.kind) with
  | none => makeDefinition f o.container o.name o.kind asked
  | some c => reopen asked c

section
variable {s t : Store} {f : FrameId} {e : Expr} {o : BodyOpening} {asked : Option ClassId}
  {c metaclass superclass : ClassId} {n : String}

theorem openModule_eq (f : FrameId) (container : Option ClassId) (n : String) (given : Option Value)
    (body : Expr) : openModule f container n = openAs f ⟨container, n, .mod, given, body⟩ none := by
  funext s
  refine read_bind_agree rfl fun found => ?_
  cases found <;> rfl

theorem superclassValue_ordinary (kind : (s.cls c).kind = .cls) :
    superclassValue (.cls c) s = .value c s := by
  rw [superclassValue]
  refine bind_of_read (a := some c) ?_
  exact if_pos kind

theorem superclassValue_other {v : Value} (other : ∀ asked, ¬ s.Asks (some v) asked) :
    superclassValue v s = .fault (.type (.superclassKind (s.inspect v))) s := by
  cases v with
  | cls c =>
    have kind : (s.cls c).kind ≠ .cls := fun kind => other _ (.ordinary kind)
    rw [superclassValue]
    refine bind_of_read (a := none) ?_
    exact if_neg kind
  | _ => rfl

theorem Store.Located.classTarget {name : Expr} {container : Option ClassId}
    (h : s.Located f name container n t) :
    classTarget performer f name s = .value (container, n) t := by
  cases h with
  | name => rfl
  | qualified target => exact bind_of_value target

theorem Store.Gives.evalSuperclass {superclass : Option Expr} {given : Option Value}
    (h : s.Gives f superclass given t) (asks : t.Asks given asked) :
    evalSuperclass performer f superclass s = .value asked t := by
  cases h with
  | nothing => cases asks; rfl
  | value run =>
    cases asks with
    | ordinary kind => exact (bind_of_value run).trans (bind_of_value (superclassValue_ordinary kind))

/-- Behind the expressions in front of the body the definition is opened. -/
theorem Store.Prepares.eval_eq (h : s.Prepares f e o t) (asks : t.Asks o.given asked) :
    eval f e s = (openAs f o asked >>= fun c => evalBody performer f c o.body) t := by
  cases h with
  | moduleDef =>
    cases asks
    rw [eval_moduleDef, ← openModule_eq]
    rfl
  | classDef located gives =>
    rw [eval_classDef, evalClass, bind_of_value located.classTarget]
    exact bind_of_value (gives.evalSuperclass asks)

/-- A value that is no ordinary class is turned away as a superclass. -/
theorem Store.Prepares.eval_of_other (h : s.Prepares f e o t) {v : Value} (given : o.given = some v)
    (other : ∀ asked, ¬ t.Asks o.given asked) :
    eval f e s = .fault (.type (.superclassKind (t.inspect v))) t := by
  cases h with
  | moduleDef => cases given
  | classDef located gives =>
    cases given
    rw [eval_classDef, evalClass, bind_of_value located.classTarget]
    cases gives with
    | value run =>
      exact bind_of_fault ((bind_of_value run).trans (bind_of_fault (superclassValue_other other)))

/-! ## Opening -/

theorem openAs_found (found : s.definition? f o.container o.name o.kind = some c) :
    openAs f o asked s = reopen asked c s := by
  rw [openAs, bind_of_read found]

theorem openAs_absent (absent : s.definition? f o.container o.name o.kind = none) :
    openAs f o asked s = makeDefinition f o.container o.name o.kind asked s := by
  rw [openAs, bind_of_read absent]

theorem reopen_same (same : asked = none ∨ asked = (s.cls c).superclass) :
    reopen asked c s = .value c s := by
  rw [reopen, bind_of_read rfl, if_pos (by simpa using same)]
  rfl

theorem reopen_other (other : asked ≠ none ∧ asked ≠ (s.cls c).superclass) :
    reopen asked c s = .fault (.type (.superclassMismatch (s.cls c).name)) s := by
  rw [reopen, bind_of_read rfl, if_neg (by simpa using other)]
  rfl

theorem requiredClass_found (found : s.registeredClass? f n = some c) :
    requiredClass f n s = .value c s := by
  rw [requiredClass, bind_of_read found]
  rfl

theorem requiredClass_absent (absent : s.registeredClass? f n = none) :
    requiredClass f n s = .fault (.uninitializedConstant n) s := by
  rw [requiredClass, bind_of_read absent]
  rfl

/-- The superclass of a new definition: the one asked for, or else the first class. -/
def parentClass (f : FrameId) : Option ClassId → Eval ClassId
  | some c => pure c
  | none => requiredClass f "Object"

theorem makeDefinition_eq (f : FrameId) (container : Option ClassId) (n : String) (kind : ClassKind)
    (asked : Option ClassId) : makeDefinition f container n kind asked =
      (parentClass f asked >>= fun superclass => requiredClass f kind.metaName >>= fun metaclass =>
        Eval.add (·.addDefinition f container n kind metaclass superclass)) := by
  cases asked <;> rfl

theorem parentClass_found (found : asked.or (s.registeredClass? f "Object") = some c) :
    parentClass f asked s = .value c s := by
  cases asked with
  | some d => cases found; rfl
  | none => exact requiredClass_found found

theorem parentClass_absent (absent : asked.or (s.registeredClass? f "Object") = none) :
    parentClass f asked s = .fault (.uninitializedConstant "Object") s := by
  cases asked with
  | some d => cases absent
  | none => exact requiredClass_absent absent

section
variable (h : s.Prepares f e o t) (asks : t.Asks o.given asked)
include h asks

theorem Store.Prepares.eval_found (found : t.definition? f o.container o.name o.kind = some c)
    (same : asked = none ∨ asked = (t.cls c).superclass) :
    eval f e s = evalBody performer f c o.body t := by
  rw [h.eval_eq asks]
  exact bind_of_value ((openAs_found found).trans (reopen_same same))

theorem Store.Prepares.eval_mismatch (found : t.definition? f o.container o.name o.kind = some c)
    (other : asked ≠ none ∧ asked ≠ (t.cls c).superclass) :
    eval f e s = .fault (.type (.superclassMismatch (t.cls c).name)) t := by
  rw [h.eval_eq asks]
  exact bind_of_fault ((openAs_found found).trans (reopen_other other))

variable (absent : t.definition? f o.container o.name o.kind = none)
include absent

theorem Store.Prepares.eval_created
    (parent : asked.or (t.registeredClass? f "Object") = some superclass)
    (metaFound : t.registeredClass? f o.kind.metaName = some metaclass) :
    eval f e s = evalBody performer f
      (t.addDefinition f o.container o.name o.kind metaclass superclass).1 o.body
      (t.addDefinition f o.container o.name o.kind metaclass superclass).2 := by
  rw [h.eval_eq asks]
  refine bind_of_value ((openAs_absent absent).trans ?_)
  rw [makeDefinition_eq, bind_of_value (parentClass_found parent),
    bind_of_value (requiredClass_found metaFound)]
  rfl

theorem Store.Prepares.eval_orphaned (parent : asked.or (t.registeredClass? f "Object") = none) :
    eval f e s = .fault (.uninitializedConstant "Object") t := by
  rw [h.eval_eq asks]
  refine bind_of_fault ((openAs_absent absent).trans ?_)
  rw [makeDefinition_eq, bind_of_fault (parentClass_absent parent)]

theorem Store.Prepares.eval_unclassed
    (parent : asked.or (t.registeredClass? f "Object") = some superclass)
    (metaAbsent : t.registeredClass? f o.kind.metaName = none) :
    eval f e s = .fault (.uninitializedConstant o.kind.metaName) t := by
  rw [h.eval_eq asks]
  refine bind_of_fault ((openAs_absent absent).trans ?_)
  rw [makeDefinition_eq, bind_of_value (parentClass_found parent),
    bind_of_fault (requiredClass_absent metaAbsent)]

end

/-! ## Definitions in sound stores -/

/-- The class or module of the kind that a binding leads to. -/
def Store.ofKind? (s : Store) (kind : ClassKind) : Option Value → Option ClassId
  | some (.cls c) => if (s.cls c).kind = kind then some c else none
  | _ => none

theorem ofKind?_iff {kind : ClassKind} {bound : Option Value} :
    s.ofKind? kind bound = some c ↔ bound = some (.cls c) ∧ (s.cls c).kind = kind := by
  cases bound with
  | none => simp [ofKind?]
  | some v =>
    cases v with
    | cls d =>
      by_cases e : d = c
      · subst e
        simp [ofKind?]
      · simp [ofKind?, e]
    | _ => simp [ofKind?]

/-- The store with one more binding in the container, or in the outermost frame. -/
def Store.bindIn (s : Store) (container : Option ClassId) (n : String) (v : Value) : Store :=
  container.elim (s.setLocal Machine.root n v) (s.setConstant · n v)

theorem bindsOnly_bindIn {container : Option ClassId} (hr : s.HasFrame Machine.root)
    (has : ∀ c, container = some c → s.HasClass c) (n : String) (v : Value) :
    s.BindsOnly (s.bindIn container n v) container n v := by
  cases container with
  | some outer =>
    have cls : ∀ d, (s.bindIn (some outer) n v).cls d =
        if d = outer then { s.cls outer with constants := (s.cls outer).constants.set n v }
        else s.cls d := cls_modifyClass (has outer rfl) _
    refine ⟨fun m k _ => ?_, fun d => ?_, rfl, fun _ _ => rfl, ?_, rfl⟩
    · cases m with
      | none => rfl
      | some d => by_cases e : d = outer <;> simp [bound?, cls, e, Table.get?_set]
    · by_cases e : d = outer <;> simp [cls, e]
    · simp [bindIn, setConstant, modifyClass]
  | none =>
    have frame : ∀ g, (s.bindIn none n v).frame g = if g = Machine.root then
        { s.frame Machine.root with locals := (s.frame Machine.root).locals.set n v }
        else s.frame g := frame_setLocal hr n v
    refine ⟨fun m k _ => ?_, fun _ => rfl, ?_, fun g hg => ?_, ?_, rfl⟩
    · cases m with
      | some d => rfl
      | none => simp [bound?, frame, Table.get?_set]
    · simp [frame]
    · rw [frame, if_neg hg]
    · simp [bindIn, setLocal, modifyFrame]

theorem cls_bindIn {container : Option ClassId} (other : container ≠ some c) (n : String)
    (v : Value) : (s.bindIn container n v).cls c = s.cls c := by
  cases container with
  | none => rfl
  | some outer =>
    have apart : outer.index ≠ c.index := fun e => other (congrArg (some ∘ ClassId.mk) e)
    simp [bindIn, setConstant, modifyClass, cls, Array.getElem?_modify, apart]

section
variable (hs : s.Sound) (hf : s.HasFrame f)
include hs hf

theorem registeredClass?_iff : s.registeredClass? f n = some c ↔ s.bound? none n = some (.cls c) := by
  rw [registeredClass?, hs.root_eq hf, bound?]
  cases (s.frame Machine.root).locals.get? n with
  | none => simp
  | some v => cases v <;> simp

theorem definition?_iff : s.definition? f o.container o.name o.kind = some c ↔ s.Defines o c := by
  have same : s.definition? f o.container o.name o.kind =
      s.ofKind? o.kind (s.bound? o.container o.name) := by
    have root := hs.root_eq hf
    unfold Store.definition? Store.bound?
    generalize s.root f = r at root ⊢
    subst root
    cases o.container <;> rfl
  rw [same, ofKind?_iff]
  constructor
  · rintro ⟨bound, kind⟩
    exact ⟨bound, kind⟩
  · rintro ⟨bound, kind⟩
    exact ⟨bound, kind⟩

/-- What a new definition has as its superclass, in terms of the value given. -/
theorem parentClass_iff (asks : s.Asks o.given asked) :
    asked.or (s.registeredClass? f "Object") = some c ↔
      o.given.or (s.bound? none "Object") = some (.cls c) := by
  have object := registeredClass?_iff hs hf (n := "Object") (c := c)
  generalize o.given = given at asks ⊢
  cases asks with
  | nothing => simpa using object
  | ordinary _ => simp

/-- Evaluation in a sound store ends in a sound one, which has what it had, with a value that it
knows. -/
theorem eval_value {v : Value} (run : eval f e s = .value v t) :
    t.Sound ∧ s.Grows t ∧ t.Knows v := by
  have answers := performer_sound.expr e hs hf
  unfold Answers Does at answers
  rw [eval] at run
  rw [run] at answers
  exact ⟨answers.1.sound, answers.1.grows, answers.2⟩

theorem Store.Located.sound {name : Expr} {container : Option ClassId}
    (h : s.Located f name container n t) :
    t.Sound ∧ s.Grows t ∧ ∀ c, container = some c → t.HasClass c := by
  cases h with
  | name => exact ⟨hs, .refl s, fun c e => ((hs.frame hf).enclosing c e).has⟩
  | qualified run =>
    obtain ⟨sound, grows, known⟩ := eval_value hs hf run
    refine ⟨sound, grows, ?_⟩
    rintro _ ⟨⟩
    exact known.has

theorem Store.Gives.sound {superclass : Option Expr} {given : Option Value}
    (h : s.Gives f superclass given t) : t.Sound ∧ s.Grows t := by
  cases h with
  | nothing => exact ⟨hs, .refl s⟩
  | value run =>
    obtain ⟨sound, grows, _⟩ := eval_value hs hf run
    exact ⟨sound, grows⟩

theorem Store.Prepares.sound (h : s.Prepares f e o t) :
    t.Sound ∧ t.HasFrame f ∧ ∀ c, o.container = some c → t.HasClass c := by
  cases h with
  | moduleDef => exact ⟨hs, hf, fun c e => ((hs.frame hf).enclosing c e).has⟩
  | classDef located gives =>
    obtain ⟨sound₁, grows₁, has⟩ := located.sound hs hf
    obtain ⟨sound₂, grows₂⟩ := gives.sound sound₁ (grows₁.hasFrame hf)
    exact ⟨sound₂, grows₂.hasFrame (grows₁.hasFrame hf), fun c e => grows₂.hasClass (has c e)⟩

theorem addDefinition_eq (metaclass superclass : ClassId) :
    s.addDefinition f o.container o.name o.kind metaclass superclass =
      (⟨s.classes.size⟩, (s.addClass (s.newClass o metaclass superclass)).2.bindIn o.container
        o.name (.cls ⟨s.classes.size⟩)) := by
  have root : (s.addClass (s.newClass o metaclass superclass)).2.root f = Machine.root :=
    hs.root_eq hf
  unfold Store.addDefinition
  unfold newClass at root ⊢
  cases o.container with
  | some outer => rfl
  | none => rw [bindIn, Option.elim_none, ← root]; rfl

theorem creates_addDefinition (has : ∀ c, o.container = some c → s.HasClass c)
    (metaclass superclass : ClassId) :
    s.Creates (s.addDefinition f o.container o.name o.kind metaclass superclass).2 o metaclass
      superclass (s.addDefinition f o.container o.name o.kind metaclass superclass).1 := by
  have grows := s.grows_addClass (s.newClass o metaclass superclass)
  have binds := bindsOnly_bindIn (grows.hasFrame hs.hasRoot)
    (fun c e => grows.hasClass (has c e)) o.name (.cls ⟨s.classes.size⟩)
  -- The binding is made in another class than the new one, whose tables stay empty.
  have apart : o.container ≠ some ⟨s.classes.size⟩ := fun e => Nat.lt_irrefl _ (has _ e)
  rw [addDefinition_eq hs hf]
  exact ⟨Nat.lt_irrefl _, (cls_bindIn apart _ _).trans (cls_addClass _), binds⟩

end

end

/-! ## Every opening of every run -/

/-- At every point of every run, behind the expressions in front of the body: a definition of the
kind that the name is bound to is reused, and nothing is changed, if no superclass is given or its
own one is. A value that is no ordinary class, or another superclass, is a fault that changes
nothing. Otherwise one new class is made and bound, with what the outermost frame binds to the names
of the built-in classes; where they are missing there, a fault changes nothing. -/
theorem open_definition {s t : Store} (hs : s.Visited) {f : FrameId} (hf : s.HasFrame f) {e : Expr}
    {o : BodyOpening} (h : s.Prepares f e o t) :
    (∀ c, t.Defines o c → o.given = none ∨ (∃ d, o.given = some (.cls d) ∧
        (t.cls d).kind = .cls ∧ (t.cls c).superclass = some d) →
      eval f e s = evalBody performer f c o.body t) ∧
    (∀ v, o.given = some v → (∀ d, v = .cls d → (t.cls d).kind ≠ .cls) →
      eval f e s = .fault (.type (.superclassKind (t.inspect v))) t) ∧
    (∀ c d, t.Defines o c → o.given = some (.cls d) → (t.cls d).kind = .cls →
      (t.cls c).superclass ≠ some d →
      eval f e s = .fault (.type (.superclassMismatch (t.cls c).name)) t) ∧
    ((∀ c, ¬ t.Defines o c) →
      (∀ v, o.given = some v → ∃ d, v = .cls d ∧ (t.cls d).kind = .cls) →
      (∀ metaclass superclass, t.bound? none o.kind.metaName = some (.cls metaclass) →
        o.given.or (t.bound? none "Object") = some (.cls superclass) →
        ∃ c u, t.Creates u o metaclass superclass c ∧
          eval f e s = evalBody performer f c o.body u) ∧
      ((∀ c, o.given.or (t.bound? none "Object") ≠ some (.cls c)) ∨
          (∀ c, t.bound? none o.kind.metaName ≠ some (.cls c)) →
        ∃ n, (n = "Object" ∨ n = o.kind.metaName) ∧ (∀ c, t.bound? none n ≠ some (.cls c)) ∧
          eval f e s = .fault (.uninitializedConstant n) t)) := by
  obtain ⟨sound, hft, has⟩ := h.sound hs.sound hf
  have defines := fun c => definition?_iff (o := o) (c := c) sound hft
  have registered := fun n c => registeredClass?_iff (n := n) (c := c) sound hft
  refine ⟨fun c found same => ?_, fun v given other => ?_, fun c d found given kind other => ?_,
    fun absent allowed => ?_⟩
  · rcases same with given | ⟨d, given, kind, same⟩
    · have asks : t.Asks o.given none := given ▸ Asks.nothing
      exact h.eval_found asks ((defines c).mpr found) (.inl rfl)
    · have asks : t.Asks o.given (some d) := given ▸ Asks.ordinary kind
      exact h.eval_found asks ((defines c).mpr found) (.inr same.symm)
  · refine h.eval_of_other given fun asked asks => ?_
    rw [given] at asks
    cases asks with
    | ordinary kind => exact other _ rfl kind
  · have asks : t.Asks o.given (some d) := given ▸ Asks.ordinary kind
    exact h.eval_mismatch asks ((defines c).mpr found) ⟨by simp, fun e => other e.symm⟩
  · have new : t.definition? f o.container o.name o.kind = none :=
      Option.eq_none_iff_forall_ne_some.mpr fun c e => absent c ((defines c).mp e)
    obtain ⟨asked, asks⟩ : ∃ asked, t.Asks o.given asked := by
      cases given : o.given with
      | none => exact ⟨_, .nothing⟩
      | some v =>
        obtain ⟨d, rfl, kind⟩ := allowed v given
        exact ⟨_, .ordinary kind⟩
    have parent := fun c => parentClass_iff (c := c) sound hft asks
    refine ⟨fun metaclass superclass metaFound given => ?_, fun missing => ?_⟩
    · exact ⟨_, _, creates_addDefinition sound hft has metaclass superclass,
        h.eval_created asks new ((parent _).mpr given) ((registered _ _).mpr metaFound)⟩
    · cases found : asked.or (t.registeredClass? f "Object") with
      | none =>
        have none := (Option.or_eq_none_iff.mp found).2
        have free : ∀ c, t.bound? .none "Object" ≠ some (.cls c) := fun c e =>
          Option.some_ne_none c (((registered _ c).mpr e).symm.trans none)
        exact ⟨_, .inl rfl, free, h.eval_orphaned asks new found⟩
      | some superclass =>
        have free : ∀ c, t.bound? none o.kind.metaName ≠ some (.cls c) :=
          missing.resolve_left fun none => none _ ((parent _).mp found)
        refine ⟨_, .inr rfl, free, h.eval_unclassed asks new found ?_⟩
        exact Option.eq_none_iff_forall_ne_some.mpr fun c e => free c ((registered _ c).mp e)

/-- The empty class `Foo` of a new machine, with a body that does nothing. -/
def fooOpening : BodyOpening :=
  ⟨none, "Foo", .cls, none, .sequence []⟩

/-- A class of a new name is made, with the first class as its superclass. -/
theorem open_definition_foo :
    coreStore.Visited ∧ coreStore.HasFrame Machine.root ∧
      coreStore.Prepares Machine.root (.classDef (.name "Foo") none (.sequence [])) fooOpening
        coreStore ∧
      ∃ c u, coreStore.Creates u fooOpening classClass objectClass c ∧
        eval Machine.root (.classDef (.name "Foo") none (.sequence [])) coreStore =
          evalBody performer Machine.root c (.sequence []) u := by
  have visited : coreStore.Visited := .start .usual coreStore.output
  have root : coreStore.HasFrame Machine.root := visited.sound.hasRoot
  have prepares : coreStore.Prepares Machine.root (.classDef (.name "Foo") none (.sequence []))
      fooOpening coreStore := .classDef .name .nothing
  have unbound : coreStore.bound? none "Foo" = none := by cbv
  obtain ⟨_, _, _, new⟩ := open_definition visited root prepares
  obtain ⟨creates, _⟩ := new (fun c d => by cases unbound.symm.trans d.bound)
    (fun v given => by cases given)
  exact ⟨visited, root, prepares, creates classClass objectClass (by cbv) (by cbv)⟩

end ObjectLang
