import ObjectLang.Proofs.Eval.Bound
import ObjectLang.Proofs.Eval.Upholds

/-!
# Evaluation upholds every policy

Every rule of evaluation upholds a policy if the tasks it carries out do: what it stores is part of
the code it runs or was known before, and it changes no array but those that values refer to. So
every run upholds every policy.
-/

namespace ObjectLang

open Store Eval

variable {G : Policy}

/-! ## Methods that call nothing back -/

theorem upholds_methodsOf (f : FrameId) (receiver : Value) : Yields G (methodsOf f receiver) := by
  refine .read fun s _ => ?_
  split
  · exact .read fun _ _ => upholds_newSymbols _
  · exact (upholds_expectClassOf f receiver).then fun _ => .read fun _ _ => upholds_newSymbols _

theorem upholds_respondsTo (f : FrameId) (receiver n : Value) :
    Yields G (respondsTo f receiver n) :=
  (upholds_nameArgument n).then fun _ => .read fun _ _ => upholds_pure trivial

theorem upholds_installEach (selector : String) {method : String → String × Callable}
    (hm : ∀ n, (method n).2.Obeys G) (receiver : Value) (args : List Value) :
    Passes G (installEach selector method receiver args) :=
  (upholds_expectClass selector receiver).then fun c => upholds_visit fun v _ =>
    (upholds_nameArgument v).then fun n => upholds_change fun _ h => h.setMethod c _ (hm n)

theorem upholds_attrReader (receiver : Value) (args : List Value) :
    Passes G (attrReader receiver args) := by
  refine upholds_installEach _ ?_ receiver args
  exact fun _ => trivial

theorem upholds_attrWriter (receiver : Value) (args : List Value) :
    Passes G (attrWriter receiver args) := by
  refine upholds_installEach _ ?_ receiver args
  exact fun _ => trivial

theorem upholds_superclassOf (receiver : Value) : Yields G (superclassOf receiver) := by
  refine (upholds_expectClass _ receiver).then fun c => .read fun s _ => upholds_pure ?_
  cases (s.cls c).superclass <;> trivial

theorem upholds_callReader (n : String) (receiver : Value) (args : List Value) :
    Yields G (callReader n receiver args) :=
  (upholds_checkArity n 0 args).then fun _ => upholds_read fun _ h => h.field receiver n

theorem upholds_callWriter (n : String) (receiver : Value) {args : List Value}
    (ha : ∀ v ∈ args, v.Obeys G) : Yields G (callWriter n receiver args) := by
  unfold callWriter
  split
  · have hv := ha _ List.mem_cons_self
    refine .read fun s _ => ?_
    split
    · exact .change (fun _ h => h.setField receiver n hv) (upholds_pure hv)
    · exact .read fun _ _ => upholds_fail trivial
  · exact upholds_fail trivial

theorem upholds_toReal (receiver : Value) : Yields G (toReal receiver) := by
  unfold toReal
  split
  · exact upholds_pure trivial
  · exact upholds_notNumeric _ _

theorem upholds_toInteger (receiver : Value) : Yields G (toInteger receiver) := by
  unfold toInteger
  split
  · exact upholds_pure trivial
  · split
    · exact upholds_pure trivial
    · exact upholds_fail trivial
  · exact upholds_notNumeric _ _

theorem upholds_onText (method : String) {g : String → Value} (hg : ∀ t, (g t).Obeys G)
    (receiver : Value) : Yields G (onText method g receiver) := by
  unfold onText
  split
  · exact upholds_pure (hg _)
  · exact upholds_noMethod _ _

theorem upholds_collectionLength (receiver : Value) : Yields G (collectionLength receiver) := by
  unfold collectionLength
  split
  · exact upholds_read fun _ _ => trivial
  · exact upholds_read fun _ _ => trivial
  · exact upholds_noMethod _ _

theorem upholds_onArray (method : String) {g : Array Value → Value}
    (hg : ∀ vs, (∀ v ∈ vs, v.Obeys G) → (g vs).Obeys G) (receiver : Value) :
    Yields G (onArray method g receiver) := by
  unfold onArray
  split
  · exact upholds_read fun _ h => hg _ (h.array _)
  · exact upholds_noMethod _ _

theorem upholds_onHash (method : String) {g : Value × Value → Value}
    (hg : ∀ p, p.1.Obeys G ∧ p.2.Obeys G → (g p).Obeys G) (receiver : Value) :
    Yields G (onHash method g receiver) := by
  unfold onHash
  split
  · refine .read fun s h => upholds_newArray fun v hv => ?_
    obtain ⟨p, hp, rfl⟩ := List.mem_map.mp (List.mem_toArray.mp hv)
    exact hg p ((h.hash _).pairs p hp)
  · exact upholds_noMethod _ _

theorem upholds_pushAll {receiver : Value} (hr : receiver.Obeys G) {args : List Value}
    (ha : ∀ v ∈ args, v.Obeys G) : Yields G (pushAll receiver args) := by
  unfold pushAll
  split
  · refine .change (fun _ h => h.modifyArray hr fun vs hvs v hv => ?_) (upholds_pure hr)
    exact (Array.mem_append.mp hv).elim (hvs v) fun hv => ha v (List.mem_toArray.mp hv)
  · exact upholds_noMethod _ _

theorem upholds_toArray (receiver : Value) : Yields G (toArray receiver) := by
  refine (upholds_elements receiver).bind fun es he => .read fun s _ => ?_
  split
  · exact upholds_newArray he.toArray
  · exact upholds_fail trivial

theorem upholds_blockArguments (spread : Bool) {v : Value} (hv : v.Obeys G) :
    Upholds G (blockArguments spread v) fun vs => ∀ w ∈ vs, w.Obeys G := by
  have alone : ∀ w ∈ [v], w.Obeys G := List.forall_mem_singleton.mpr hv
  unfold blockArguments
  split
  · split
    · exact upholds_read fun _ h w hw => h.array _ w (Array.mem_toList_iff.mp hw)
    · exact upholds_pure alone
  · exact upholds_pure alone

theorem upholds_puts (args : List Value) : Yields G (puts args) := by
  refine .read fun s _ => ?_
  split
  · exact upholds_fail trivial
  · exact .read fun _ _ => .change (fun _ h => h.print _) (upholds_pure trivial)

/-! ## Variables -/

theorem upholds_evalInstanceVar (f : FrameId) (n : String) : Yields G (evalInstanceVar f n) := by
  refine upholds_read fun s h => ?_
  cases (s.frame f).self with
  | none => trivial
  | some v => exact h.field v n

theorem upholds_evalClassVar (f : FrameId) (n : String) : Yields G (evalClassVar f n) := by
  refine .read fun _ _ => .read fun s h => ?_
  split
  · next v hv =>
    obtain ⟨c, _, hv⟩ := Option.bind_eq_some_iff.mp hv
    exact upholds_pure (h.classVar? hv)
  · exact .read fun _ _ => upholds_fail trivial

theorem upholds_assignName (f : FrameId) (n : String) {v : Value} (hv : v.Obeys G) :
    Yields G (assignName f n v) :=
  .change (fun _ h => h.bind f n hv) (upholds_pure hv)

theorem upholds_assignInstanceVar (f : FrameId) (n : String) {v : Value} (hv : v.Obeys G) :
    Yields G (assignInstanceVar f n v) := by
  refine .read fun _ _ => .read fun s _ => ?_
  split
  · exact .change (fun _ h => h.setField _ n hv) (upholds_pure hv)
  · exact .read fun _ _ => upholds_fail trivial

theorem upholds_assignClassVar (f : FrameId) (n : String) {v : Value} (hv : v.Obeys G) :
    Yields G (assignClassVar f n v) := by
  refine .read fun s _ => ?_
  split
  · exact .change (fun _ h => h.setClassVar _ n hv) (upholds_pure hv)
  · exact upholds_fail trivial

/-! ## Owners of definitions -/

theorem upholds_singletonClass (v : Value) : Passes G (singletonClass v) := by
  refine .change (fun s h => h.addSingleton v (s.display v)) (.read fun s _ => ?_)
  split
  · exact upholds_pure trivial
  · exact .read fun _ _ => upholds_fail trivial

theorem upholds_definitionOwner (f : FrameId) : Passes G (definitionOwner f) := by
  refine .read fun s _ => ?_
  split
  · exact upholds_pure trivial
  · exact (upholds_expectClassOf f _).then fun _ => upholds_pure trivial
  · exact upholds_pure trivial

theorem upholds_requiredClass (f : FrameId) (n : String) : Passes G (requiredClass f n) := by
  refine .read fun s _ => ?_
  split
  · exact upholds_pure trivial
  · exact upholds_fail trivial

theorem upholds_makeDefinition (f : FrameId) (container : Option ClassId) (n : String)
    (kind : ClassKind) (superclass : Option ClassId) :
    Passes G (makeDefinition f container n kind superclass) := by
  have rest : ∀ p, Passes G (do
      let metaclass ← requiredClass f kind.metaName
      Eval.add (·.addDefinition f container n kind metaclass p)) := fun p =>
    (upholds_requiredClass f _).then fun m =>
      upholds_add fun _ h => h.addDefinition f container n kind m p
  unfold makeDefinition
  cases superclass with
  | some p => exact rest p
  | none => exact (upholds_requiredClass f _).then rest

theorem upholds_moduleValue (v : Value) : Passes G (moduleValue v) := by
  unfold moduleValue
  split
  · exact upholds_pure trivial
  · exact .read fun _ _ => upholds_fail trivial

theorem upholds_superclassValue (v : Value) : Passes G (superclassValue v) := by
  refine .read fun s _ => ?_
  split
  · exact upholds_pure trivial
  · exact .read fun _ _ => upholds_fail trivial

theorem upholds_openClass (f : FrameId) (container : Option ClassId) (n : String)
    (superclass : Option ClassId) : Passes G (openClass f container n superclass) := by
  refine .read fun s _ => ?_
  split
  · exact upholds_makeDefinition f container n _ superclass
  · refine .read fun _ _ => ?_
    split
    · exact upholds_pure trivial
    · exact .read fun _ _ => upholds_fail trivial

theorem upholds_openModule (f : FrameId) (container : Option ClassId) (n : String) :
    Passes G (openModule f container n) := by
  refine .read fun s _ => ?_
  split
  · exact upholds_pure trivial
  · exact upholds_makeDefinition f container n _ none

/-! ## Tasks -/

/-- The code of the task and the values that it is given obey the policy. -/
def Task.Obeys (G : Policy) : Task → Prop
  | .expr _ e => G.code e
  | .invoke _ m receiver args =>
    m.Obeys G ∧ (∀ v, receiver = some v → v.Obeys G) ∧ ∀ v ∈ args, v.Obeys G

/-- The performer upholds the policy in every task that obeys it. -/
abbrev Performer.Upholds (G : Policy) (r : Performer) : Prop :=
  ∀ t : Task, t.Obeys G → Yields G (r t)

section
variable {r : Performer} (hr : r.Upholds G)
include hr

/-! ## Calls -/

theorem upholds_callBlock (p : ProcId) {args : List Value} (ha : ∀ v ∈ args, v.Obeys G) :
    Yields G (callBlock r p args) :=
  .read fun _ h => .add (fun _ h' => h'.enterBlock (forall_bindBlockParams trivial _ ha)) fun _ =>
    hr _ (h.block p)

theorem upholds_callDefinition (f : FrameId) {d : Definition} (hd : G.code d.body)
    {receiver : Option Value} (hv : ∀ v, receiver = some v → v.Obeys G) {args : List Value}
    (ha : ∀ v ∈ args, v.Obeys G) : Yields G (callDefinition r f d receiver args) :=
  (upholds_checkArity _ _ _).then fun _ => .add (fun _ h => h.enterCall f d hv ha) fun _ => hr _ hd

theorem upholds_newInstance (f : FrameId) (receiver : Value) {args : List Value}
    (ha : ∀ v ∈ args, v.Obeys G) : Yields G (newInstance r f receiver args) := by
  refine (upholds_expectClass _ receiver).then fun c =>
    .add (fun _ h => h.addObject (Table.forall_empty _)) fun o => .read fun s h => ?_
  split
  · next m hm =>
    have self : ∀ v, some (Value.object o) = some v → v.Obeys G := by rintro v ⟨⟩; trivial
    exact (hr (.invoke f m _ args) ⟨h.method? hm, self, ha⟩).bind fun _ _ => upholds_pure trivial
  · exact (upholds_checkArity _ _ _).then fun _ => upholds_pure trivial

theorem upholds_blockVisit (p : ProcId) {es : Elements} (he : es.Obeys G) :
    Passes G (es.visit fun v => do let _ ← callBlock r p [v]) :=
  upholds_elementsVisit (fun _ hv =>
    (upholds_callBlock hr p (List.forall_mem_singleton.mpr hv)).bind fun _ _ =>
      upholds_pure trivial) he

theorem upholds_times {receiver : Value} (hv : receiver.Obeys G) (args : List Value) :
    Yields G (times r receiver args) :=
  (upholds_expectInt _ receiver).then fun _ => (upholds_blockArgument _ args).then fun b =>
    (upholds_blockVisit hr b (by trivial)).then fun _ => upholds_pure hv

theorem upholds_upto {receiver : Value} (hv : receiver.Obeys G) (upper : Value)
    (args : List Value) : Yields G (upto r receiver upper args) :=
  (upholds_expectInt _ receiver).then fun _ => (upholds_expectInt _ upper).then fun _ =>
    (upholds_blockArgument _ args).then fun b =>
      (upholds_blockVisit hr b (by trivial)).then fun _ => upholds_pure hv

theorem upholds_eachElement {receiver : Value} (hv : receiver.Obeys G) (args : List Value) :
    Yields G (eachElement r receiver args) := by
  refine (upholds_blockArgument _ args).then fun b => .read fun _ _ =>
    (upholds_elements receiver).bind fun es he =>
      (upholds_elementsVisit (fun v hw => ?_) he).then fun _ => upholds_pure hv
  exact (upholds_blockArguments _ hw).bind fun vs hvs =>
    (upholds_callBlock hr b hvs).bind fun _ _ => upholds_pure trivial

theorem upholds_mapElements (receiver : Value) (args : List Value) :
    Yields G (mapElements r receiver args) := by
  refine (upholds_blockArgument _ args).then fun b => (upholds_elements receiver).bind fun es he =>
    (upholds_elementsMap (fun v hv => ?_) he).bind fun vs hvs => upholds_newArray hvs
  exact upholds_callBlock hr b (List.forall_mem_singleton.mpr hv)

theorem upholds_callProc (receiver : Value) {args : List Value} (ha : ∀ v ∈ args, v.Obeys G) :
    Yields G (callProc r receiver args) := by
  unfold callProc
  split
  · exact upholds_callBlock hr _ ha
  · exact upholds_noMethod _ _

omit hr in
theorem upholds_withoutArgs (b : Builtin) (args : List Value) {x : Eval Value} (hx : Yields G x) :
    Yields G (withoutArgs b args x) :=
  (upholds_checkArity _ _ _).then fun _ => hx

theorem upholds_runBuiltin (f : FrameId) (b : Builtin) {receiver : Value} (hv : receiver.Obeys G)
    {args : List Value} (ha : ∀ v ∈ args, v.Obeys G) :
    Yields G (runBuiltin r f b receiver args) := by
  have alone {x : Eval Value} (hx : Yields G x) := upholds_withoutArgs b args hx
  cases b with
  | new => exact upholds_newInstance hr f receiver ha
  | cls => exact alone ((upholds_expectClassOf f receiver).then fun _ => upholds_pure trivial)
  | methods => exact alone (upholds_methodsOf f receiver)
  | singletonMethods | instanceVariables => exact alone (.read fun _ _ => upholds_newSymbols _)
  | toS | inspect => exact alone (upholds_read fun _ _ => trivial)
  | respondTo =>
    match args with
    | [n] => exact upholds_respondsTo f receiver n
    | [] | _ :: _ :: _ => exact upholds_fail trivial
  | moduleName =>
    exact alone ((upholds_expectClass _ receiver).then fun _ => upholds_read fun _ _ => trivial)
  | attrAccessor =>
    exact (upholds_attrReader receiver args).then fun _ =>
      (upholds_attrWriter receiver args).then fun _ => upholds_pure trivial
  | attrReader => exact (upholds_attrReader receiver args).then fun _ => upholds_pure trivial
  | attrWriter => exact (upholds_attrWriter receiver args).then fun _ => upholds_pure trivial
  | instanceMethods | constants =>
    exact alone ((upholds_expectClass _ receiver).then fun _ =>
      .read fun _ _ => upholds_newSymbols _)
  | superclass => exact alone (upholds_superclassOf receiver)
  | times => exact (upholds_checkArity _ _ _).then fun _ => upholds_times hr hv args
  | upto =>
    match args with
    | [upper, block] => exact upholds_upto hr hv upper [block]
    | [] | [_] | _ :: _ :: _ :: _ => exact upholds_fail trivial
  | toF => exact alone (upholds_toReal receiver)
  | toI => exact alone (upholds_toInteger receiver)
  | textLength | upcase | downcase | toSym =>
    exact alone (upholds_onText _ (by intro t; trivial) receiver)
  | length => exact alone (upholds_collectionLength receiver)
  | push => exact upholds_pushAll hv ha
  | first =>
    refine alone (upholds_onArray _ (fun vs hvs => ?_) receiver)
    exact Value.obeys_getD fun v e => hvs v (Array.mem_of_getElem? e)
  | last =>
    refine alone (upholds_onArray _ (fun vs hvs => ?_) receiver)
    exact Value.obeys_getD fun v e => hvs v (Array.mem_of_back? e)
  | each => exact (upholds_checkArity _ _ _).then fun _ => upholds_eachElement hr hv args
  | map => exact (upholds_checkArity _ _ _).then fun _ => upholds_mapElements hr receiver args
  | keys => exact alone (upholds_onHash _ (fun _ hp => hp.1) receiver)
  | values => exact alone (upholds_onHash _ (fun _ hp => hp.2) receiver)
  | toA => exact alone (upholds_toArray receiver)
  | call => exact upholds_callProc hr receiver ha

theorem upholds_invoke (f : FrameId) {m : Callable} (hm : m.Obeys G) {receiver : Option Value}
    (hv : ∀ v, receiver = some v → v.Obeys G) {args : List Value} (ha : ∀ v ∈ args, v.Obeys G) :
    Yields G (invoke r f m receiver args) := by
  cases m with
  | builtin b => exact upholds_runBuiltin hr f b (Value.obeys_getD hv) ha
  | puts => exact upholds_puts args
  | reader n => exact upholds_callReader n _ args
  | writer n => exact upholds_callWriter n _ ha
  | defined d => exact upholds_callDefinition hr f hm hv ha

theorem upholds_send (f : FrameId) {receiver : Value} (hv : receiver.Obeys G) (n : String)
    {args : List Value} (ha : ∀ v ∈ args, v.Obeys G) : Yields G (send r f receiver n args) := by
  refine .read fun s h => ?_
  split
  · next m hm => exact upholds_invoke hr f (h.method? hm) (by rintro _ ⟨⟩; exact hv) ha
  · exact upholds_noMethod _ _

theorem upholds_sendSelf? (f : FrameId) (n : String) {args : List Value}
    (ha : ∀ v ∈ args, v.Obeys G) :
    Upholds G (sendSelf? r f n args) fun o => ∀ v, o = some v → v.Obeys G := by
  refine .read fun s h => ?_
  split
  · next v m found =>
    obtain ⟨w, hw, found⟩ := Option.bind_eq_some_iff.mp found
    obtain ⟨k, hk, eq⟩ := Option.map_eq_some_iff.mp found
    cases eq
    have hv := (h.frame f).self v hw
    refine (upholds_invoke hr f (h.method? hk) (by rintro _ ⟨⟩; exact hv) ha).bind fun u hu => ?_
    exact upholds_pure fun _ e => Option.some.inj e ▸ hu
  · exact upholds_pure nofun

/-! ## Names and calls -/

variable (f : FrameId)

theorem upholds_evalArgs {args : List Expr} (ha : ∀ e ∈ args, G.code e) :
    Upholds G (evalArgs r f args) fun vs => ∀ v ∈ vs, v.Obeys G :=
  upholds_each fun e he => hr _ (ha e he)

theorem upholds_onOperands {left right : Expr} (hl : G.code left) (hright : G.code right)
    {op : Value → Value → Eval Value} (hop : ∀ v w, Yields G (op v w)) :
    Yields G (onOperands r f left right op) :=
  (hr (.expr f left) hl).bind fun v _ => (hr (.expr f right) hright).bind fun w _ => hop v w

omit hr in
theorem upholds_readConstant (n : String) :
    Upholds G (Eval.add (·.readConstant f n)) fun o => ∀ v, o = some v → v.Obeys G :=
  fun _ h => ⟨h.tick, fun _ hv => h.tick.constant? hv⟩

theorem upholds_evalName (n : String) : Yields G (evalName r f n) := by
  unfold evalName
  split
  · refine (upholds_readConstant f n).bind fun o ho => ?_
    split
    · next v => exact upholds_pure (ho v rfl)
    · exact upholds_fail trivial
  · refine .read fun s h => ?_
    split
    · next m hm => exact upholds_invoke hr f (h.lookup? hm) (by nofun) (by nofun)
    · next v _ hv => exact upholds_pure (h.lookup? hv)
    · refine (upholds_sendSelf? hr f n (by nofun)).bind fun o ho => ?_
      cases o with
      | some v => exact upholds_pure (ho v rfl)
      | none => exact upholds_fail trivial

theorem upholds_evalCall (n : String) {args : List Expr} (ha : ∀ e ∈ args, G.code e) :
    Yields G (evalCall r f n args) := by
  refine (upholds_evalArgs hr f ha).bind fun vs hvs => .read fun s h => ?_
  split
  · next m hm => exact upholds_invoke hr f (h.lookup? hm) (by nofun) hvs
  · refine (upholds_sendSelf? hr f n hvs).bind fun o ho => ?_
    cases o with
    | some v => exact upholds_pure (ho v rfl)
    | none => exact .read fun _ _ => upholds_fail trivial

theorem upholds_evalDot {target : Expr} (ht : G.code target) (n : String) {args : List Expr}
    (ha : ∀ e ∈ args, G.code e) : Yields G (evalDot r f target n args) :=
  (hr (.expr f target) ht).bind fun _ hv => (upholds_evalArgs hr f ha).bind fun _ hvs =>
    upholds_send hr f hv n hvs

theorem upholds_evalDoubleColon {target : Expr} (ht : G.code target) (n : String) :
    Yields G (evalDoubleColon r f target n) := by
  refine (hr (.expr f target) ht).bind fun v hv => (upholds_moduleValue v).then fun c => ?_
  split
  · refine .read fun s h => ?_
    split
    · next w hw => exact upholds_pure ((h.cls c).constants.get? hw)
    · exact .read fun _ _ => upholds_fail trivial
  · exact upholds_send hr f hv n (by nofun)

theorem upholds_evalAssignDot {target value : Expr}
    (here : (Expr.assignDot target value).WellPlaced ∨ ∀ f, G.fault f) (ht : G.code target)
    (hv : G.code value) : Yields G (evalAssignDot r f target value) := by
  unfold evalAssignDot
  split
  · next receiver n _ =>
    refine (hr (.expr f receiver) (G.child ht List.mem_cons_self)).bind fun v hw =>
      (hr (.expr f value) hv).bind fun w hw' => ?_
    exact (upholds_send hr f hw _ (List.forall_mem_singleton.mpr hw')).bind fun _ _ =>
      upholds_pure hw'
  · next refused =>
    refine upholds_fault (here.elim (fun placed => ?_) (· _))
    obtain ⟨⟨receiver, n, rfl⟩, _⟩ := placed
    exact absurd rfl (refused receiver n [])

/-! ## Loops and sequences -/

omit hr in
theorem upholds_loopWhile (go : Bool) {condition body : Eval Value} (hc : Yields G condition)
    (hb : Yields G body) : ∀ fuel, Yields G (loopWhile go condition body fuel)
  | 0 => upholds_endless
  | fuel + 1 => by
    refine hc.bind fun v _ => ?_
    split
    · exact hb.bind fun _ _ => upholds_loopWhile go hc hb fuel
    · exact upholds_pure trivial

theorem upholds_evalForIn (n : String) {collection body : Expr} (hc : G.code collection)
    (hb : G.code body) : Yields G (evalForIn r f n collection body) := by
  refine (hr (.expr f collection) hc).bind fun v hv => (upholds_elements v).bind fun es he =>
    (upholds_elementsVisit (fun w hw => ?_) he).then fun _ => upholds_pure hv
  exact .change (fun _ h => h.setLocal f n hw)
    ((hr (.expr f body) hb).bind fun _ _ => upholds_pure trivial)

theorem upholds_sequenceFrom {commands : List Expr} (hc : ∀ e ∈ commands, G.code e) {last : Value}
    (hl : last.Obeys G) : Yields G (sequenceFrom r f last commands) := by
  induction commands generalizing last with
  | nil => exact upholds_pure hl
  | cons c commands ih =>
    obtain ⟨hc, rest⟩ := List.forall_mem_cons.mp hc
    exact (hr (.expr f c) hc).bind fun _ hv => ih rest hv

/-! ## Collections -/

theorem upholds_evalEntries {entries : List (Expr × Expr)}
    (he : ∀ x ∈ entries, G.code x.1 ∧ G.code x.2) {t : HashTable} (ht : t.Obeys G) :
    Upholds G (evalEntries r f t entries) (HashTable.Obeys G) := by
  induction entries generalizing t with
  | nil => exact upholds_pure ht
  | cons entry entries ih =>
    obtain ⟨⟨hk, hv⟩, rest⟩ := List.forall_mem_cons.mp he
    exact (hr (.expr f entry.1) hk).bind fun _ hg => (hr (.expr f entry.2) hv).bind fun _ hw =>
      (upholds_put ht hg hw).bind fun _ ht => ih rest ht

theorem upholds_evalHash {entries : List (Expr × Expr)}
    (he : ∀ x ∈ entries, G.code x.1 ∧ G.code x.2) : Yields G (evalHash r f entries) := by
  have empty : HashTable.empty.Obeys G := by intro e he; simp [HashTable.empty] at he
  exact (upholds_evalEntries hr f he empty).bind fun _ ht =>
    .add (fun _ h => h.addHash ht) fun _ => upholds_pure trivial

theorem upholds_evalRange {lower upper : Expr} (hl : G.code lower) (hu : G.code upper) :
    Yields G (evalRange r f lower upper) := by
  refine (hr (.expr f lower) hl).bind fun v _ => (hr (.expr f upper) hu).bind fun w _ => ?_
  split
  · exact upholds_pure trivial
  · exact .read fun _ _ => .read fun _ _ => upholds_fail trivial

/-! ## Definitions -/

theorem upholds_defineOn {receiver : Expr} (h : G.code receiver) (n : String) :
    Passes G (defineOn r f receiver n) :=
  (hr (.expr f receiver) h).bind fun v _ => (upholds_singletonClass v).then fun _ =>
    upholds_pure trivial

theorem upholds_definitionTarget {target : Expr} (here : IsDefTarget target ∨ ∀ f, G.fault f)
    (h : G.code target) : Passes G (definitionTarget r f target) := by
  unfold definitionTarget
  split
  · exact (upholds_definitionOwner f).then fun _ => upholds_pure trivial
  · exact upholds_defineOn hr f (G.child h List.mem_cons_self) _
  · exact upholds_defineOn hr f (G.child h List.mem_cons_self) _
  · next noName noDot noColon =>
    refine upholds_fault (here.elim (fun placed => ?_) (· _))
    cases placed with
    | name => exact absurd rfl (noName _)
    | selfDot | nameDot => exact absurd rfl (noDot _ _ _)
    | selfColon | nameColon => exact absurd rfl (noColon _ _)

theorem upholds_evalDefine {target : Expr} {params : List String} {body : Expr}
    (here : IsDefTarget target ∨ ∀ f, G.fault f) (ht : G.code target) (hb : G.code body) :
    Yields G (evalDefine r f target params body) := by
  refine (upholds_definitionTarget hr f here ht).then fun p => .read fun _ _ => ?_
  split
  · exact .change (fun _ h => h.setMethod _ _ hb) (upholds_pure trivial)
  · exact .change (fun _ h => h.setLocal f _ hb) (upholds_pure trivial)

theorem upholds_evalBody (c : ClassId) {body : Expr} (hb : G.code body) :
    Yields G (evalBody r f c body) :=
  .add (fun _ h => h.enterBody f c) fun _ => hr _ hb

theorem upholds_classTarget {n : Expr} (here : IsClassName n ∨ ∀ f, G.fault f) (h : G.code n) :
    Passes G (classTarget r f n) := by
  unfold classTarget
  split
  · exact .read fun _ _ => upholds_pure trivial
  · exact (hr (.expr f _) (G.child h List.mem_cons_self)).bind fun v _ =>
      (upholds_moduleValue v).then fun _ => upholds_pure trivial
  · next noName noColon =>
    refine upholds_fault (here.elim (fun placed => ?_) (· _))
    cases placed with
    | one => exact absurd rfl (noName _)
    | more => exact absurd rfl (noColon _ _)

theorem upholds_evalSuperclass {superclass : Option Expr} (h : ∀ e ∈ superclass, G.code e) :
    Passes G (evalSuperclass r f superclass) := by
  cases superclass with
  | none => exact upholds_pure trivial
  | some e =>
    exact (hr (.expr f e) (h e rfl)).bind fun v _ => (upholds_superclassValue v).then fun _ =>
      upholds_pure trivial

theorem upholds_evalClass {n : Expr} {superclass : Option Expr} {body : Expr}
    (here : IsClassName n ∨ ∀ f, G.fault f) (hn : G.code n) (hs : ∀ e ∈ superclass, G.code e)
    (hb : G.code body) : Yields G (evalClass r f n superclass body) :=
  (upholds_classTarget hr f here hn).then fun p => (upholds_evalSuperclass hr f hs).then fun c =>
    (upholds_openClass f p.1 p.2 c).then fun d => upholds_evalBody hr f d hb

theorem upholds_evalModule (n : String) {body : Expr} (hb : G.code body) :
    Yields G (evalModule r f n body) :=
  .read fun _ _ => (upholds_openModule f _ n).then fun c => upholds_evalBody hr f c hb

/-! ## All expressions -/

theorem upholds_evalExpr (fuel : Nat) {e : Expr} (h : G.code e) :
    Yields G (evalExpr r fuel f e) := by
  have here := G.refused h
  have below (c : Expr) (hc : c ∈ e.children) : G.code c := G.child h hc
  -- The trees below a node are found by their place in `children`.
  have first {c : Expr} {cs : List Expr} (eq : e.children = c :: cs) : G.code c :=
    below c (eq ▸ List.mem_cons_self)
  have second {b c : Expr} {cs : List Expr} (eq : e.children = b :: c :: cs) : G.code c :=
    below c (eq ▸ List.mem_cons_of_mem _ List.mem_cons_self)
  cases e with
  | literal l => exact upholds_pure (by cases l <;> trivial)
  | name n => exact upholds_evalName hr f n
  | selfRef => exact upholds_read fun _ h => Value.obeys_getD (h.frame f).self
  | instanceVar n => exact upholds_evalInstanceVar f n
  | classVar n => exact upholds_evalClassVar f n
  | arith op left right => exact upholds_onOperands hr f (first rfl) (second rfl) (upholds_arith op)
  | compare op left right =>
    exact upholds_onOperands hr f (first rfl) (second rfl) (upholds_compareBy op)
  | negative e => exact (hr (.expr f e) (first rfl)).bind fun v _ => upholds_negate v
  | negation e => exact (hr (.expr f e) (first rfl)).bind fun _ _ => upholds_pure trivial
  | assign n e => exact (hr (.expr f e) (first rfl)).bind fun _ hv => upholds_assignName f n hv
  | assignInstanceVar n e =>
    exact (hr (.expr f e) (first rfl)).bind fun _ hv => upholds_assignInstanceVar f n hv
  | assignClassVar n e =>
    exact (hr (.expr f e) (first rfl)).bind fun _ hv => upholds_assignClassVar f n hv
  | assignIndexed target index e =>
    have third : G.code e :=
      below e (List.mem_cons_of_mem _ (List.mem_cons_of_mem _ List.mem_cons_self))
    exact (hr (.expr f target) (first rfl)).bind fun t ht =>
      (hr (.expr f index) (second rfl)).bind fun _ hi => (hr (.expr f e) third).bind fun _ hv =>
        (upholds_setIndex ht hi hv).then fun _ => upholds_pure hv
  | assignDot target e => exact upholds_evalAssignDot hr f here (first rfl) (second rfl)
  | call n args => exact upholds_evalCall hr f n below
  | dot target n args =>
    exact upholds_evalDot hr f (first rfl) n fun e he => below e (List.mem_cons_of_mem _ he)
  | doubleColon target n => exact upholds_evalDoubleColon hr f (first rfl) n
  | ifElse condition thenBranch elseBranch =>
    refine (hr (.expr f condition) (first rfl)).bind fun v _ => ?_
    split
    · exact hr _ (second rfl)
    · cases elseBranch with
      | some b => exact hr _ (below b (by simp [Expr.children]))
      | none => exact upholds_pure trivial
  | whileLoop condition body =>
    exact upholds_loopWhile true (hr (.expr f condition) (first rfl))
      (hr (.expr f body) (second rfl)) fuel
  | untilLoop condition body =>
    exact upholds_loopWhile false (hr (.expr f condition) (first rfl))
      (hr (.expr f body) (second rfl)) fuel
  | forIn n collection body => exact upholds_evalForIn hr f n (first rfl) (second rfl)
  | define target params body =>
    exact upholds_evalDefine hr f (here.imp_left And.left) (first rfl) (second rfl)
  | classDef n superclass body =>
    refine upholds_evalClass hr f (here.imp_left And.left) (first rfl) (fun e he => below e ?_)
      (second rfl)
    exact List.mem_cons_of_mem _ (List.mem_cons_of_mem _ (Option.mem_toList.mpr he))
  | moduleDef n body => exact upholds_evalModule hr f n (first rfl)
  | array items =>
    exact (upholds_evalArgs hr f below).bind fun vs hv =>
      upholds_newArray fun v hm => hv v (List.mem_toArray.mp hm)
  | hash entries =>
    refine upholds_evalHash hr f fun x hx => ⟨below _ ?_, below _ ?_⟩
    · exact List.mem_flatMap.mpr ⟨x, hx, List.mem_cons_self⟩
    · exact List.mem_flatMap.mpr ⟨x, hx, List.mem_cons_of_mem _ List.mem_cons_self⟩
  | range lower upper => exact upholds_evalRange hr f (first rfl) (second rfl)
  | indexed target index => exact upholds_onOperands hr f (first rfl) (second rfl) upholds_getIndex
  | block params body =>
    exact .add (fun _ h => h.addBlock (b := ⟨params, body, f⟩) (first rfl)) fun _ =>
      upholds_pure trivial
  | sequence commands => exact upholds_sequenceFrom hr f below trivial

end

/-! ## The evaluator -/

/-- By induction on the levels of nesting: each rule passes the policy on from the tasks below. -/
theorem perform_upholds : ∀ fuel, Performer.Upholds G (perform fuel)
  | 0, _, _ => upholds_endless
  | fuel + 1, .expr f _, h => upholds_evalExpr (perform_upholds fuel) f fuel h
  | fuel + 1, .invoke f _ _ _, h => upholds_invoke (perform_upholds fuel) f h.1 h.2.1 h.2.2

theorem upholds_underBound {α : Type} {x : Nat → Eval α} {Q : α → Prop}
    (hx : ∀ bound, Upholds G (x bound) Q) (n : Nat) : Upholds G (underBound x n) Q := by
  intro s h
  rcases underBound_cases x n s with e | ⟨bound, e⟩
  · rw [e]; trivial
  · rw [e]; exact hx bound s h

theorem performer_upholds : Performer.Upholds G performer :=
  fun t ht => upholds_underBound (fun fuel => perform_upholds fuel t ht) _

/-! ## Programs -/

section
variable {f : FrameId} {commands : List Expr} (hc : ∀ e ∈ commands, G.code e)
include hc

theorem upholds_commandsFrom {last : Value} (hl : last.Obeys G) :
    Yields G (commandsFrom performer f last commands) := by
  induction commands generalizing last with
  | nil => exact upholds_pure hl
  | cons c commands ih =>
    obtain ⟨hc, rest⟩ := List.forall_mem_cons.mp hc
    refine (performer_upholds (.expr f c) hc).bind fun v hv => ?_
    exact .change (fun _ h => h.release f [v]) (ih rest hv)

theorem upholds_evalProgram : Yields G (evalProgram f commands) :=
  .change (fun _ h => h.release f []) (upholds_commandsFrom hc trivial)

end

end ObjectLang
