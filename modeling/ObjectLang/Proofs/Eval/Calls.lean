import ObjectLang.Proofs.Eval.Methods

/-!
# What calls do

A call writes locals of new frames only: it runs in a frame of its own, whichever
frame it is made from and whichever frame a block was written in.
-/

namespace ObjectLang

open Store Eval

/-- The tasks are carried out in a sound way: an expression writes to its frame alone, and an
invocation to no frame that is there already. -/
structure Performer.Sound (r : Performer) : Prop where
  expr : ∀ {s : Store} {f : FrameId} (e : Expr), s.Sound → s.HasFrame f →
    Answers (· = f) s (r (.expr f e))
  invoke : ∀ {s : Store} {f : FrameId} {m : Callable} {receiver : Option Value}
    {args : List Value}, s.Sound → s.HasFrame f → s.MayRun m receiver →
    (∀ v, receiver = some v → s.Knows v) → (∀ v ∈ args, s.Knows v) →
    Answers (fun _ => False) s (r (.invoke f m receiver args))

section
variable {r : Performer} (hr : r.Sound) {W : FrameId → Prop} {s : Store} (h : s.Sound)
include hr h

/-! ## New scopes -/

/-- The body of a block, definition or class runs in a frame of its own. -/
theorem does_body {enter : Store → FrameId × Store} {fr : Frame} (he : enter s = s.addFrame fr)
    (hf : s.FrameSound s.frames.size fr) (body : Expr) :
    Answers W s (Eval.add enter >>= fun g => r (.expr g body)) := by
  have e : Effect W s (enter s).2 := by rw [he]; exact effect_addFrame h hf
  have has : (enter s).2.HasFrame (enter s).1 := by rw [he]; simp [HasFrame, addFrame]
  have all := (hr.expr body e.sound has).after e fun g hg eq => by
    have new : (enter s).1.index = s.frames.size := by rw [he]; rfl
    have old : g.index < s.frames.size := hg.elim id fun e => e ▸ h.hasRoot
    rw [eq, new] at old
    exact absurd old (Nat.lt_irrefl _)
  exact all

theorem does_callBlock (p : ProcId) {args : List Value} (ha : ∀ v ∈ args, s.Knows v) :
    Answers W s (callBlock r p args) := by
  refine .read (does_body hr h rfl ?_ _)
  have hf := h.frame (h.block p)
  exact ⟨h.block p, Table.forall_ofList (forall_bindBlockParams trivial _ ha), hf.self, hf.enclosing⟩

theorem does_callDefinition {f : FrameId} (hf : s.HasFrame f) {d : Definition}
    (hd : ∀ c, d.enclosing = some c → s.Proper c) {receiver : Option Value}
    (hv : ∀ v, receiver = some v → s.Knows v) {args : List Value} (ha : ∀ v ∈ args, s.Knows v) :
    Answers W s (callDefinition r f d receiver args) := by
  refine (does_checkArity h _ _ _).bind fun _ s' _ => ?_
  intro e
  subst e
  have e : Effect W s s.tick := effect_tick h
  have entered : s.tick.FrameSound s.tick.frames.size ⟨some (s.root f),
      .ofList (d.params.zip args), receiver, s.tick.follow d.enclosing⟩ :=
    { parent := by rw [h.root_eq hf]; exact h.rooted
      locals := Table.forall_ofList fun x hx => (ha x.2 (List.of_mem_zip hx).2).grows e.grows
      self := fun v hv' => (hv v hv').grows e.grows
      enclosing := fun c hc => (hd c (Option.filter_eq_some_iff.mp hc).1).grows e.grows }
  have body : Answers W s.tick (Eval.add (fun t => t.addFrame _) >>= fun g => r (.expr g d.body)) :=
    does_body hr e.sound rfl entered d.body
  have both := body.after e fun _ _ hw => hw
  exact both

theorem does_evalBody {f : FrameId} (hf : s.HasFrame f) {c : ClassId} (hc : s.Proper c)
    (body : Expr) : Answers W s (evalBody r f c body) := by
  refine does_body hr h rfl ⟨?_, Table.forall_empty _, ?_, ?_⟩ body
  · rw [h.root_eq hf]; exact h.rooted
  · rintro v ⟨⟩; exact hc
  · rintro d ⟨⟩; exact hc

/-! ## Calls -/

theorem does_newInstance {f : FrameId} (hf : s.HasFrame f) {receiver : Value}
    (hc : ∃ c, receiver = .cls c ∧ s.Instantiable c) {args : List Value}
    (ha : ∀ v ∈ args, s.Knows v) : Answers W s (newInstance r f receiver args) := by
  obtain ⟨c, rfl, hc⟩ := hc
  refine (does_expectClass h _ _).bind fun d s' _ => ?_
  intro both
  obtain ⟨rfl, ⟨⟩⟩ := both
  have proper : s.Proper c := ⟨hc.has, by rw [hc.kind]; decide⟩
  have e : Effect W s (s.addObject ⟨c, .empty, none⟩).2 :=
    effect_addObject h ⟨proper, Table.forall_empty _, fun d hd => by cases hd⟩ hc
  have new : (s.addObject ⟨c, .empty, none⟩).2.Knows (.object (s.addObject ⟨c, .empty, none⟩).1) :=
    by simp [Knows, HasObject, addObject]
  refine .add e (.read ?_)
  split
  · next m hm =>
    have run := hr.invoke e.sound (e.grows.hasFrame hf) (e.sound.method? new hm)
      (fun v hv => by cases hv; exact new) fun v hv => (ha v hv).grows e.grows
    refine (run.widen fun _ no => no.elim).bind fun _ s' e' _ => does_pure e'.sound ?_
    exact Knows.grows e'.grows new
  · refine (does_checkArity e.sound _ _ _).bind fun _ s' e' _ => does_pure e'.sound ?_
    exact Knows.grows e'.grows new

theorem does_blockVisit (p : ProcId) {es : Elements} (he : es.Known s) :
    Does W s (es.visit fun v => do let _ ← callBlock r p [v]) fun _ _ => True := by
  refine does_elementsVisit h he fun v s' e hv => ?_
  refine (does_callBlock hr e.sound p fun w hw => ?_).bind fun _ s'' e' _ => does_pure e'.sound trivial
  rw [List.mem_singleton.mp hw]; exact hv

theorem does_times {receiver : Value} (hv : s.Knows receiver) (args : List Value) :
    Answers W s (times r receiver args) := by
  refine (does_expectInt h _ receiver).bind fun n s' _ => ?_
  intro e
  subst e
  refine (does_blockArgument h _ args).bind fun b s' _ => ?_
  intro e
  subst e
  exact (does_blockVisit hr h b (by trivial)).bind fun _ s' e _ => does_pure e.sound (hv.grows e.grows)

theorem does_upto {receiver : Value} (hv : s.Knows receiver) (upper : Value)
    (args : List Value) : Answers W s (upto r receiver upper args) := by
  refine (does_expectInt h _ receiver).bind fun n s' _ => ?_
  intro e
  subst e
  refine (does_expectInt h _ upper).bind fun m s' _ => ?_
  intro e
  subst e
  refine (does_blockArgument h _ args).bind fun b s' _ => ?_
  intro e
  subst e
  exact (does_blockVisit hr h b (by trivial)).bind fun _ s' e _ => does_pure e.sound (hv.grows e.grows)

theorem does_eachElement {receiver : Value} (hv : s.Knows receiver) (args : List Value) :
    Answers W s (eachElement r receiver args) := by
  refine (does_blockArgument h _ args).bind fun b s' _ => ?_
  intro e
  subst e
  refine .read ((does_elements h receiver).bind fun es s' e he => ?_)
  refine (does_elementsVisit e.sound he fun v s'' e' hw => ?_).bind fun _ s'' e' _ =>
    does_pure e'.sound ((hv.grows e.grows).grows e'.grows)
  refine (does_blockArguments e'.sound _ hw).bind fun vs t _ => ?_
  intro both
  obtain ⟨rfl, hvs⟩ := both
  exact (does_callBlock hr e'.sound b hvs).bind fun _ t e'' _ => does_pure e''.sound trivial

theorem does_mapElements (receiver : Value) (args : List Value) :
    Answers W s (mapElements r receiver args) := by
  refine (does_blockArgument h _ args).bind fun b s' _ => ?_
  intro e
  subst e
  refine (does_elements h receiver).bind fun es s' e he => ?_
  refine (does_elementsMap e.sound he fun v s'' e' hw => ?_).bind fun vs s'' e' hvs =>
    does_newArray e'.sound hvs
  exact does_callBlock hr e'.sound b fun w hm => by rw [List.mem_singleton.mp hm]; exact hw

theorem does_callProc (receiver : Value) {args : List Value} (ha : ∀ v ∈ args, s.Knows v) :
    Answers W s (callProc r receiver args) := by
  unfold callProc
  split
  · exact does_callBlock hr h _ ha
  · exact does_noMethod h _ _

omit hr in
theorem does_withoutArgs (b : Builtin) (args : List Value) {x : Eval Value}
    (hx : Answers W s x) : Answers W s (withoutArgs b args x) := by
  refine (does_checkArity h _ _ _).bind fun _ s' _ => ?_
  intro e
  subst e
  exact hx

theorem does_runBuiltin {f : FrameId} (hf : s.HasFrame f) {b : Builtin} {receiver : Value}
    (hb : b = .new → ∃ c, receiver = .cls c ∧ s.Instantiable c) (hv : s.Knows receiver)
    {args : List Value} (ha : ∀ v ∈ args, s.Knows v) :
    Answers W s (runBuiltin r f b receiver args) := by
  cases b with
  | new => exact does_newInstance hr h hf (hb rfl) ha
  | cls =>
    refine does_withoutArgs h _ args ((does_expectClassOf h f hv).bind fun c s' _ => ?_)
    intro both
    obtain ⟨rfl, hc⟩ := both
    exact does_pure h hc
  | methods => exact does_withoutArgs h _ args (does_methodsOf h f hv)
  | singletonMethods => exact does_withoutArgs h _ args (does_singletonMethodsOf h receiver)
  | toS | inspect => exact does_withoutArgs h _ args (does_read h trivial)
  | respondTo =>
    match args with
    | [n] => exact does_respondsTo h f receiver n
    | [] | _ :: _ :: _ => exact does_fail h _
  | instanceVariables => exact does_withoutArgs h _ args (does_instanceVariablesOf h receiver)
  | moduleName =>
    refine does_withoutArgs h _ args ((does_expectClass h _ receiver).bind fun c s' e _ => ?_)
    exact does_read e.sound trivial
  | attrAccessor =>
    refine (does_attrReader h receiver args).bind fun _ s' e _ => ?_
    exact (does_attrWriter e.sound receiver args).bind fun _ s'' e' _ => does_pure e'.sound trivial
  | attrReader =>
    exact (does_attrReader h receiver args).bind fun _ s' e _ => does_pure e.sound trivial
  | attrWriter =>
    exact (does_attrWriter h receiver args).bind fun _ s' e _ => does_pure e.sound trivial
  | instanceMethods | constants =>
    refine does_withoutArgs h _ args ((does_expectClass h _ receiver).bind fun c s' e _ => ?_)
    exact .read (does_newSymbols e.sound _)
  | superclass => exact does_withoutArgs h _ args (does_superclassOf h hv)
  | times =>
    refine (does_checkArity h _ _ _).bind fun _ s' _ => ?_
    intro e
    subst e
    exact does_times hr h hv args
  | upto =>
    match args with
    | [upper, block] => exact does_upto hr h hv upper [block]
    | [] | [_] | _ :: _ :: _ :: _ => exact does_fail h _
  | toF => exact does_withoutArgs h _ args (does_toReal h receiver)
  | toI => exact does_withoutArgs h _ args (does_toInteger h receiver)
  | textLength | upcase | downcase | toSym =>
    exact does_withoutArgs h _ args (does_onText h _ (by intro t; trivial) receiver)
  | length => exact does_withoutArgs h _ args (does_collectionLength h receiver)
  | push => exact does_pushAll h hv ha
  | first =>
    refine does_withoutArgs h _ args (does_onArray h _ (fun vs hvs => ?_) receiver)
    exact Knows.ofOption fun v e => hvs v (Array.mem_of_getElem? e)
  | last =>
    refine does_withoutArgs h _ args (does_onArray h _ (fun vs hvs => ?_) receiver)
    exact Knows.ofOption fun v e => hvs v (Array.mem_of_back? e)
  | each =>
    refine (does_checkArity h _ _ _).bind fun _ s' _ => ?_
    intro e
    subst e
    exact does_eachElement hr h hv args
  | map =>
    refine (does_checkArity h _ _ _).bind fun _ s' _ => ?_
    intro e
    subst e
    exact does_mapElements hr h receiver args
  | keys => exact does_withoutArgs h _ args (does_onHash h _ (fun _ hp => hp.1) receiver)
  | values => exact does_withoutArgs h _ args (does_onHash h _ (fun _ hp => hp.2) receiver)
  | toA => exact does_withoutArgs h _ args (does_toArray h receiver)
  | call => exact does_callProc hr h receiver ha

theorem does_invoke {f : FrameId} (hf : s.HasFrame f) {m : Callable} {receiver : Option Value}
    (hm : s.MayRun m receiver) (hv : ∀ v, receiver = some v → s.Knows v) {args : List Value}
    (ha : ∀ v ∈ args, s.Knows v) : Answers W s (invoke r f m receiver args) := by
  have known : s.Knows (receiver.getD .nil) := Knows.ofOption hv
  cases m with
  | builtin b =>
    refine does_runBuiltin hr h hf ?_ known ha
    intro e
    subst e
    rcases hm with hm | ⟨_, c, rfl, hc⟩
    · exact absurd rfl hm
    · exact ⟨c, rfl, hc⟩
  | puts => exact does_puts h args
  | reader n => exact does_callReader h n known args
  | writer n => exact does_callWriter h n _ ha
  | defined d =>
    rcases hm with hm | ⟨e, _⟩
    · exact does_callDefinition hr h hf hm hv ha
    · cases e

theorem does_send {f : FrameId} (hf : s.HasFrame f) {receiver : Value} (hv : s.Knows receiver)
    (n : String) {args : List Value} (ha : ∀ v ∈ args, s.Knows v) :
    Answers W s (send r f receiver n args) := by
  refine .read ?_
  split
  · next m hm => exact does_invoke hr h hf (h.method? hv hm) (by rintro _ ⟨⟩; exact hv) ha
  · exact does_noMethod h _ _

theorem does_sendSelf? {f : FrameId} (hf : s.HasFrame f) (n : String) {args : List Value}
    (ha : ∀ v ∈ args, s.Knows v) :
    Does W s (sendSelf? r f n args) fun o s' => ∀ v, o = some v → s'.Knows v := by
  refine .read ?_
  split
  · next v m found =>
    obtain ⟨w, hw, found⟩ := Option.bind_eq_some_iff.mp found
    obtain ⟨k, hk, eq⟩ := Option.map_eq_some_iff.mp found
    cases eq
    have hv := (h.frame hf).self v hw
    refine (does_invoke hr h hf (h.method? hv hk) (by rintro _ ⟨⟩; exact hv) ha).bind
      fun u s' e hu => does_pure e.sound ?_
    rintro _ ⟨⟩
    exact hu
  · exact does_pure h nofun

end

end ObjectLang
