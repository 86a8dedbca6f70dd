import ObjectLang.Proofs.Eval.Steps

/-!
# Methods, variables and definitions

What the built-in methods, the variables and the definitions do, as far as they
carry out no task. Only an assignment to a plain name and a method definition
without a receiver write a local, in the frame they are evaluated in.
-/

namespace ObjectLang

open Store Eval

variable {W : FrameId → Prop} {s : Store} (h : s.Sound)
include h

/-! ## Built-in methods of objects -/

theorem does_methodsOf (f : FrameId) {receiver : Value} (hr : s.Knows receiver) :
    Answers W s (methodsOf f receiver) := by
  refine .read ?_
  split
  · exact .read (does_newSymbols h _)
  · refine (does_expectClassOf h f hr).bind fun c s' _ => ?_
    intro both
    obtain ⟨rfl, _⟩ := both
    exact .read (does_newSymbols h _)

theorem does_singletonMethodsOf (receiver : Value) : Answers W s (singletonMethodsOf receiver) :=
  .read (does_newSymbols h _)

theorem does_instanceVariablesOf (receiver : Value) :
    Answers W s (instanceVariablesOf receiver) :=
  .read (does_newSymbols h _)

theorem does_respondsTo (f : FrameId) (receiver n : Value) :
    Answers W s (respondsTo f receiver n) := by
  refine (does_nameArgument h n).bind fun _ s' _ => ?_
  intro e
  subst e
  exact .read (does_pure h trivial)

theorem does_installEach (selector : String) {method : String → String × Callable}
    (hm : ∀ n s', s.Grows s' → s'.Admits (method n).2) (receiver : Value) (args : List Value) :
    Does W s (installEach selector method receiver args) fun _ _ => True := by
  refine (does_expectClass h selector receiver).bind fun c s' _ => ?_
  intro both
  obtain ⟨rfl, _⟩ := both
  refine does_visit h fun v _ s' e => (does_nameArgument e.sound v).bind fun n s'' _ => ?_
  intro e
  subst e
  exact does_change (effect_setMethod e.sound c _ (hm n _ e.grows)) trivial

theorem does_attrReader (receiver : Value) (args : List Value) :
    Does W s (attrReader receiver args) fun _ _ => True := by
  refine does_installEach h _ ?_ receiver args
  intro n s' g
  trivial

theorem does_attrWriter (receiver : Value) (args : List Value) :
    Does W s (attrWriter receiver args) fun _ _ => True := by
  refine does_installEach h _ ?_ receiver args
  intro n s' g
  trivial

theorem does_superclassOf {receiver : Value} (hr : s.Knows receiver) :
    Answers W s (superclassOf receiver) := by
  refine (does_expectClass h _ receiver).bind fun c s' _ => ?_
  intro both
  obtain ⟨rfl, rfl⟩ := both
  refine .read (does_pure h ?_)
  have hs := (h.cls hr.has).superclass
  cases e : (s.cls c).superclass with
  | none => trivial
  | some d => rw [e] at hs; exact hs.2

theorem Store.SoundIn.field {v : Value} (hv : s.Knows v) (n : String) :
    s.Knows (s.field v n) := by
  refine Knows.ofOption fun w hw => ?_
  obtain ⟨o, ho, hw⟩ := Option.bind_eq_some_iff.mp hw
  exact (h.objectOf? hv ho).fields.get? hw

theorem does_callReader (n : String) {receiver : Value} (hr : s.Knows receiver)
    (args : List Value) : Answers W s (callReader n receiver args) := by
  refine (does_checkArity h n 0 args).bind fun _ s' _ => ?_
  intro e
  subst e
  exact does_read h (h.field hr n)

theorem does_callWriter (n : String) (receiver : Value) {args : List Value}
    (ha : ∀ v ∈ args, s.Knows v) : Answers W s (callWriter n receiver args) := by
  unfold callWriter
  split
  · next v =>
    have hv := ha v List.mem_cons_self
    refine .read ?_
    split
    · have e := effect_setField (W := W) h receiver n hv
      exact .change e (does_pure e.sound (hv.grows e.grows))
    · exact .read (does_typeFail h _)
  · exact does_fail h _

/-! ## Built-in methods of data -/

theorem does_toReal (receiver : Value) : Answers W s (toReal receiver) := by
  unfold toReal
  split
  · exact does_pure h trivial
  · exact does_notNumeric h _ _

theorem does_toInteger (receiver : Value) : Answers W s (toInteger receiver) := by
  unfold toInteger
  split
  · exact does_pure h trivial
  · split
    · exact does_pure h trivial
    · exact does_typeFail h _
  · exact does_notNumeric h _ _

theorem does_onText (method : String) {g : String → Value} (hg : ∀ t, s.Knows (g t))
    (receiver : Value) : Answers W s (onText method g receiver) := by
  unfold onText
  split
  · exact does_pure h (hg _)
  · exact does_noMethod h _ _

theorem does_collectionLength (receiver : Value) :
    Answers W s (collectionLength receiver) := by
  unfold collectionLength
  split
  · exact does_read h trivial
  · exact does_read h trivial
  · exact does_noMethod h _ _

theorem does_onArray (method : String) {g : Array Value → Value}
    (hg : ∀ vs, (∀ v ∈ vs, s.Knows v) → s.Knows (g vs)) (receiver : Value) :
    Answers W s (onArray method g receiver) := by
  unfold onArray
  split
  · next a => exact does_read h (hg _ (h.array a))
  · exact does_noMethod h _ _

theorem does_onHash (method : String) {g : Value × Value → Value}
    (hg : ∀ p, s.Knows p.1 ∧ s.Knows p.2 → s.Knows (g p)) (receiver : Value) :
    Answers W s (onHash method g receiver) := by
  unfold onHash
  split
  · next t =>
    refine .read (does_newArray h fun v hv => ?_)
    obtain ⟨p, hp, rfl⟩ := List.mem_map.mp (List.mem_toArray.mp hv)
    exact hg p (HashTable.Forall.pairs (h.hash t) p hp)
  · exact does_noMethod h _ _

theorem does_pushAll {receiver : Value} (hr : s.Knows receiver) {args : List Value}
    (ha : ∀ v ∈ args, s.Knows v) : Answers W s (pushAll receiver args) := by
  unfold pushAll
  split
  · next a =>
    have e := effect_modifyArray (W := W) h a (k := (· ++ args.toArray)) fun vs hvs v hv => by
      rcases Array.mem_append.mp hv with hv | hv
      · exact hvs v hv
      · exact ha v (List.mem_toArray.mp hv)
    exact .change e (does_pure e.sound (Knows.grows e.grows hr))
  · exact does_noMethod h _ _

theorem does_toArray (receiver : Value) : Answers W s (toArray receiver) := by
  refine (does_elements h receiver).bind fun es s' e he => ?_
  refine .read ?_
  split
  · exact does_newArray e.sound he.toArray
  · exact does_fail e.sound _

theorem does_blockArguments (spread : Bool) {v : Value} (hv : s.Knows v) :
    Does W s (blockArguments spread v) fun vs s' => s = s' ∧ ∀ w ∈ vs, s'.Knows w := by
  unfold blockArguments
  split
  · next a =>
    split
    · exact does_read h ⟨rfl, fun w hw => h.array a w (Array.mem_toList_iff.mp hw)⟩
    · exact does_pure h ⟨rfl, fun w hw => by rw [List.mem_singleton.mp hw]; exact hv⟩
  · exact does_pure h ⟨rfl, fun w hw => by rw [List.mem_singleton.mp hw]; exact hv⟩

theorem does_puts (args : List Value) : Answers W s (puts args) := by
  refine .read ?_
  split
  · exact does_fail h _
  · have e := effect_print (W := W) h (s.putsText args)
    exact .read (.change e (does_pure e.sound trivial))

/-! ## Variables -/

theorem does_evalInstanceVar {f : FrameId} (hf : s.HasFrame f) (n : String) :
    Answers W s (evalInstanceVar f n) := by
  refine does_read h ?_
  cases e : (s.frame f).self with
  | none => trivial
  | some v => exact h.field ((h.frame hf).self v e) n

theorem does_evalClassVar (f : FrameId) (n : String) : Answers W s (evalClassVar f n) := by
  refine .read (.read ?_)
  split
  · next v hv =>
    obtain ⟨c, _, hv⟩ := Option.bind_eq_some_iff.mp hv
    exact does_pure h (h.classVar? hv)
  · exact .read (does_fail h _)

theorem effect_bind {f : FrameId} (hf : W f) (n : String) {v : Value} (hv : s.Knows v) :
    Effect W s (s.bind f n v) := by
  unfold Store.bind
  split
  · split
    · exact effect_setConstant h _ n hv
    · exact effect_setLocal h hf n hv
  · exact effect_setLocal h hf n hv

theorem does_assignName {f : FrameId} (hf : W f) (n : String) {v : Value} (hv : s.Knows v) :
    Answers W s (assignName f n v) :=
  have e := effect_bind h hf n hv
  .change e (does_pure e.sound (hv.grows e.grows))

theorem does_assignInstanceVar (f : FrameId) (n : String) {v : Value} (hv : s.Knows v) :
    Answers W s (assignInstanceVar f n v) := by
  refine .read (.read ?_)
  split
  · next w _ =>
    have e := effect_setField (W := W) h w n hv
    exact .change e (does_pure e.sound (hv.grows e.grows))
  · exact .read (does_typeFail h _)

theorem does_assignClassVar (f : FrameId) (n : String) {v : Value} (hv : s.Knows v) :
    Answers W s (assignClassVar f n v) := by
  refine .read ?_
  split
  · next c _ =>
    have e := effect_setClassVar (W := W) h c n hv
    exact .change e (does_pure e.sound (hv.grows e.grows))
  · exact does_typeFail h _

/-! ## Definitions -/

theorem does_singletonClass {v : Value} (hv : s.Knows v) :
    Does W s (singletonClass v) fun _ _ => True := by
  have e := effect_addSingleton (W := W) h hv (s.display v)
  refine .change e (.read ?_)
  split
  · exact does_pure e.sound trivial
  · exact .read (does_typeFail e.sound _)

theorem does_definitionOwner {f : FrameId} (hf : s.HasFrame f) :
    Does W s (definitionOwner f) fun _ _ => True := by
  refine .read ?_
  split
  · exact does_pure h trivial
  · next v _ hv =>
    refine (does_expectClassOf h f ((h.frame hf).self v hv)).bind fun c s' e _ => ?_
    exact does_pure e.sound trivial
  · exact does_pure h trivial

theorem does_requiredClass (f : FrameId) (n : String) :
    Does W s (requiredClass f n) fun c s' => s = s' ∧ s.Proper c := by
  refine .read ?_
  split
  · next c hc => exact does_pure h ⟨rfl, h.registeredClass? hc⟩
  · exact does_fail h _

theorem Store.SoundIn.definition? {f : FrameId} {container : Option ClassId} {n : String}
    {kind : ClassKind} {c : ClassId} (e : s.definition? f container n kind = some c) :
    s.Proper c := by
  unfold Store.definition? at e
  simp only at e
  split at e
  · next d hd =>
    split at e
    · cases e
      split at hd
      · exact (h.constants _).get? hd
      · exact (h.locals _).get? hd
    · cases e
  · cases e

theorem does_makeDefinition {f : FrameId} (hf : s.HasFrame f) {container : Option ClassId}
    (hc : ∀ c, container = some c → s.Proper c) (n : String) {kind : ClassKind}
    (hk : kind ≠ .singleton) {superclass : Option ClassId}
    (hs : ∀ c, superclass = some c → s.Proper c) :
    Does W s (makeDefinition f container n kind superclass) fun c s' => s'.Proper c := by
  have rest : ∀ p, s.Proper p → Does W s
      (do
        let metaclass ← requiredClass f kind.metaName
        Eval.add (·.addDefinition f container n kind metaclass p)) fun c s' => s'.Proper c := by
    intro p hp
    refine (does_requiredClass h f _).bind fun m s' _ => ?_
    intro both
    obtain ⟨rfl, hm⟩ := both
    obtain ⟨e, new⟩ := effect_addDefinition (W := W) h hf hc n hk hm hp
    exact does_add e new
  unfold makeDefinition
  cases superclass with
  | some p => exact rest p (hs p rfl)
  | none =>
    refine (does_requiredClass h f _).bind fun p s' _ => ?_
    intro both
    obtain ⟨rfl, hp⟩ := both
    exact rest p hp

theorem does_moduleValue {v : Value} (hv : s.Knows v) :
    Does W s (moduleValue v) fun c s' => s = s' ∧ s.Proper c := by
  unfold moduleValue
  split
  · exact does_pure h ⟨rfl, hv⟩
  · exact .read (does_typeFail h _)

theorem does_superclassValue {v : Value} (hv : s.Knows v) :
    Does W s (superclassValue v) fun c s' => s = s' ∧ s.Proper c := by
  refine .read ?_
  split
  · next c hc =>
    refine does_pure h ⟨rfl, ?_⟩
    split at hc
    · split at hc
      · cases hc; exact hv
      · cases hc
    · cases hc
  · exact .read (does_typeFail h _)

theorem does_openClass {f : FrameId} (hf : s.HasFrame f) {container : Option ClassId}
    (hc : ∀ c, container = some c → s.Proper c) (n : String) {superclass : Option ClassId}
    (hs : ∀ c, superclass = some c → s.Proper c) :
    Does W s (openClass f container n superclass) fun c s' => s'.Proper c := by
  refine .read ?_
  split
  · exact does_makeDefinition h hf hc n (by decide) hs
  · next c hd =>
    refine .read ?_
    split
    · exact does_pure h (h.definition? hd)
    · exact .read (does_typeFail h _)

theorem does_openModule {f : FrameId} (hf : s.HasFrame f) {container : Option ClassId}
    (hc : ∀ c, container = some c → s.Proper c) (n : String) :
    Does W s (openModule f container n) fun c s' => s'.Proper c := by
  refine .read ?_
  split
  · next c hd => exact does_pure h (h.definition? hd)
  · exact does_makeDefinition h hf hc n (by decide) nofun

end ObjectLang
