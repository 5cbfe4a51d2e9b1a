import MorphEngine.Proofs.Memo.Lookup

/-!
# Trees with caches beside trees without

From sound caches every member of a family does what an ideal host makes of it without its caches.
A direct reply is the same value, or one that has to be awaited on both sides, which only an
asynchronous member gives; and what is awaited in the end is the same.
-/

namespace MorphEngine

open Morph Engine

namespace Answers

variable {U : Type} {h : Host U} {a : Answers} {F : Morph → Prop}

/-- A step whose outcome is the same on both sides is followed by steps that may rely on what an
ideal host has made of it. -/
theorem bind_agrees {α β γ δ : Type} {S : α → β → Prop} {T : γ → δ → Prop}
    (one : ∀ u b b', S u b → S u b' → b = b') {run : Engine U α}
    {n : Engine (Except Fault Value) β} (first : Related (Beside h a F) S run n)
    {k : α → Engine U γ} {l : β → Engine (Except Fault Value) δ}
    (next : ∀ u b, S u b → (∃ w, a.Sound h F w) → (n.runFrom start).1 = .ok b →
      Related (Beside h a F) T (k u) (l b)) :
    Related (Beside h a F) T (run >>= k) (n >>= l) := by
  intro w x sound
  obtain ⟨here, after⟩ := first w x sound
  have there := (first w start sound).1
  rw [runFrom_bind, runFrom_bind]
  rcases ran : run.runFrom w with ⟨r, w'⟩
  rcases other : n.runFrom x with ⟨s, x'⟩
  rw [ran] at here there after
  rw [other] at here
  cases here with
  | error f => exact ⟨.error f, after⟩
  | @ok u b same =>
    refine next u b same ⟨w, sound⟩ ?_ w' x' after
    cases ideal : (n.runFrom start).1 with
    | error f =>
      rw [ideal] at there
      cases there
    | ok b' =>
      rw [ideal] at there
      cases there with
      | ok same' => rw [one u b b' same same']

theorem Plain.one (u b b' : Value) (same : Plain u b) (same' : Plain u b') : b = b' :=
  same.1.symm.trans same'.1

/-- Two replies that are the same value, or both have to be awaited, which only an asynchronous
morph asks for. -/
inductive Matched (m : Morph) {V : Type} : Reply U → Reply V → Prop
  | ready {u : Value} (plain : u.isAwaitable = false) : Matched m (.value u) (.value u)
  | pending {reply : Reply U} {reply' : Reply V} (async : m.isAsync = true)
      (here : reply.ready? = none) (there : reply'.ready? = none) : Matched m reply reply'

theorem settle_plain (k : Host U) {u : Value} (plain : u.isAwaitable = false) :
    settle k (.value u) = pure u := by
  simp only [settle, plain, if_false, Bool.false_eq_true]

theorem ready_plain {u : Value} (plain : u.isAwaitable = false) :
    (Reply.value u : Reply U).ready? = some u := by
  simp only [Reply.ready?, plain, if_false, Bool.false_eq_true]

/-- What is expected of a transformation beside an ideal one: its direct replies match, and so does
what it gives in the end. -/
structure Agrees (h : Host U) (a : Answers) (F : Morph → Prop) (m : Morph)
    (t : Engine U (Reply U)) (t' : Engine (Except Fault Value) (Reply (Except Fault Value))) :
    Prop where
  replies : Related (Beside h a F) (Matched m) t t'
  settles : Related (Beside h a F) Plain (t >>= settle h) (t' >>= settle (a.host h.cells))

/-- A transformation that always replies with a value settles to that value. -/
theorem Agrees.of_values {m : Morph} {run : Engine U Value} {n : Engine (Except Fault Value) Value}
    (runs : Related (Beside h a F) Plain run n) :
    Agrees h a F m (.value <$> run) (.value <$> n) where
  replies := runs.map fun u v plain => plain.1 ▸ .ready plain.2
  settles := by
    rw [map_eq_pure_bind, map_eq_pure_bind, bind_assoc, bind_assoc]
    simp only [pure_bind]
    refine Related.bind runs fun u v plain => ?_
    obtain ⟨rfl, ready⟩ := plain
    rw [settle_plain h ready, settle_plain (a.host h.cells) ready]
    exact .pure ⟨rfl, ready⟩

/-- A transformation that puts off all its work settles to that work. -/
theorem Agrees.of_deferred {m : Morph} (async : m.isAsync = true) {run : Engine U Value}
    {n : Engine (Except Fault Value) Value} (runs : Related (Beside h a F) Plain run n) :
    Agrees h a F m (pure (.deferred run)) (pure (.deferred n)) where
  replies := .pure (.pending async rfl rfl)
  settles := by
    rw [pure_bind, pure_bind]
    exact runs

theorem Agrees.bind {m : Morph} {α : Type} {run : Engine U α}
    {n : Engine (Except Fault Value) α} (first : Related (Beside h a F) Eq run n)
    {k : α → Engine U (Reply U)} {l : α → Engine (Except Fault Value) (Reply (Except Fault Value))}
    (next : ∀ b, (n.runFrom start).1 = .ok b → Agrees h a F m (k b) (l b)) :
    Agrees h a F m (run >>= k) (n >>= l) where
  replies := bind_agrees (fun _ _ _ same same' => same.symm.trans same') first
    fun u b same _ ended => same ▸ (next b ended).replies
  settles := by
    rw [bind_assoc, bind_assoc]
    exact bind_agrees (fun _ _ _ same same' => same.symm.trans same') first
      fun u b same _ ended => same ▸ (next b ended).settles

section Calls

variable {m : Morph} {t : Engine U (Reply U)}
  {t' : Engine (Except Fault Value) (Reply (Except Fault Value))}

/-- A call on the direct path, past the cache. -/
theorem Agrees.callOnce (agrees : Agrees h a F m t t') {head head' : Header}
    (named : head.name = head'.name) (label : Name) (context : Value) :
    Related (Beside h a F) Plain (callOnce head label context t)
      (callOnce head' label context t') := by
  intro w x sound
  obtain ⟨alike, after⟩ := agrees.replies w x sound
  rw [runFrom_callOnce, runFrom_callOnce]
  rcases ran : t.runFrom w with ⟨r, w'⟩
  rcases other : t'.runFrom x with ⟨s, x'⟩
  rw [ran] at alike after
  rw [other] at alike
  cases alike with
  | error f => exact ⟨.error _, after⟩
  | ok same =>
    refine ⟨?_, after⟩
    cases same with
    | ready plain =>
      simp only [ready_plain plain, Option.elim]
      exact .ok ⟨rfl, plain⟩
    | pending async here there =>
      simp only [here, there, Option.elim, refusal, named]
      exact .error _

/-- A call on the deferred path, past the cache. -/
theorem Agrees.awaitOnce (agrees : Agrees h a F m t t') (label : Name) (context : Value) :
    Related (Beside h a F) Plain (awaitOnce h label context t)
      (awaitOnce (a.host h.cells) label context t') :=
  agrees.settles.mapFault _

theorem awaitOnce_eq_ok {V : Type} (k : Host V) (label : Name) (context : Value)
    (t : Engine V (Reply V)) (x : World V) (u : Value) :
    ((Morph.awaitOnce k label context t).runFrom x).1 = .ok u ↔
      ((t >>= settle k).runFrom x).1 = .ok u := by
  rw [Morph.awaitOnce, runFrom_mapFault]
  cases ((t >>= settle k).runFrom x).1 with
  | error f =>
    constructor
    · intro ends
      cases ends
    · intro ends
      cases ends
  | ok v => exact Iff.rfl

end Calls

section Members

variable {m : Morph} {v context : Value}

/-- A member of the family under a label on the deferred path. -/
theorem executeDeferred_agrees (family : a.OnceAwaited h F) (hm : F m)
    (keyEnds : a.KeyEnds h.cells m v context)
    (agrees : Agrees h a F m (transform h m v context)
      (transform (a.host h.cells) m.bare v context)) (label : Name) :
    Related (Beside h a F) Plain
      (executeDeferred h m.head label v context (transform h m v context))
      (awaitOnce (a.host h.cells) label context
        (transform (a.host h.cells) m.bare v context)) := by
  have through := throughCache_agrees family.toFamily hm keyEnds (agrees.awaitOnce label context)
    fun _ _ u => by rw [meaning, awaitOnce_eq_ok, awaitOnce_eq_ok]
  have left := through.mapFault Fault.leaveDeferred
  rw [leaveDeferred_awaitOnce] at left
  exact left

/-- A member of the family under a label on the direct path, where no asynchronous one runs. -/
theorem execute_agrees (family : a.OnceAwaited h F) (hm : F m) (sync : m.isAsync = false)
    (keyEnds : a.KeyEnds h.cells m v context)
    (agrees : Agrees h a F m (transform h m v context)
      (transform (a.host h.cells) m.bare v context)) (label : Name) :
    Related (Beside h a F) Plain (execute h m.head label v context (transform h m v context))
      (callOnce m.bare.head label context (transform (a.host h.cells) m.bare v context)) := by
  have named : m.head.name = m.bare.head.name := by
    rw [head_bare]
    rfl
  refine throughCache_agrees family.toFamily hm keyEnds (agrees.callOnce named label context) ?_
  intro w sound u
  have ready : ¬ NeedsAwaiting
      ((transform (a.host h.cells) m.bare v context).runFrom start).1 := by
    rintro ⟨reply, replied, pending⟩
    have alike := (agrees.replies w start sound).1
    rw [replied] at alike
    cases ran : ((transform h m v context).runFrom w).1 with
    | error f =>
      rw [ran] at alike
      cases alike
    | ok reply' =>
      rw [ran] at alike
      cases alike with
      | ok same =>
        cases same with
        | ready plain =>
          rw [ready_plain plain] at pending
          cases pending
        | pending async _ _ =>
          rw [sync] at async
          cases async
  have direct : (Morph.awaitOnce (a.host h.cells) label context
      (transform (a.host h.cells) m.bare v context)).runFrom start =
        (Morph.callOnce m.bare.head label context
          (transform (a.host h.cells) m.bare v context)).runFrom start :=
    awaitOnce_eq_callOnce _ ready
  rw [← direct, meaning, awaitOnce_eq_ok, awaitOnce_eq_ok]

end Members

section Functions

variable {fn : Value} (explained : a.ExplainedOnce h (a.Sound h F) fn) (v context : Value)

include explained

theorem direct_agrees (direct : isAsyncFunction fn = false) :
    Related (Beside h a F) Plain (h.call fn v context)
      ((a.host h.cells).call fn v context) := by
  intro w x sound
  obtain ⟨alike, after⟩ := (explained.direct direct v context).related w x sound
  have answers : (a.host h.cells).call fn v context = ofExcept (a.call fn v context) := by
    simp only [host, direct, if_false, Bool.false_eq_true]
  rw [answers]
  refine ⟨?_, after⟩
  rw [runFrom_ofExcept] at alike ⊢
  cases answered : a.call fn v context with
  | error f =>
    rw [alike.eq, answered]
    exact .error f
  | ok u =>
    rw [alike.eq, answered]
    exact .ok ⟨rfl, explained.ready v context u answered⟩

omit explained in
/-- What an asynchronous function does when it is called. -/
theorem deferred_called (async : isAsyncFunction fn = true) (x : World (Except Fault Value)) :
    ((a.host h.cells).call fn v context).runFrom x =
      (.ok (.awaitable 0), { x with user := a.call fn v context }) := by
  simp only [host, async, if_true]
  rfl

theorem pending_agrees (async : isAsyncFunction fn = true) {m : Morph} (kind : m.isAsync = true) :
    Related (Beside h a F) (Matched m) (.value <$> h.call fn v context : Engine U (Reply U))
      (.value <$> (a.host h.cells).call fn v context : Engine _ (Reply (Except Fault Value))) := by
  intro w x sound
  obtain ⟨u, w', called, awaitable, sound', _⟩ := explained.deferred async v context w sound
  rw [runFrom_map, runFrom_map, called, deferred_called v context async x]
  refine ⟨.ok (.pending kind ?_ rfl), sound'⟩
  simp only [Reply.ready?, awaitable, if_true]

/-- A function beside its answers, what it hands out awaited where it has to be. -/
theorem function_agrees :
    Related (Beside h a F) Plain (h.call fn v context >>= fun u => settle h (.value u))
      ((a.host h.cells).call fn v context >>=
        fun u => settle (a.host h.cells) (.value u)) := by
  cases async : isAsyncFunction fn with
  | false =>
    refine .bind (direct_agrees explained v context async) fun u u' plain => ?_
    obtain ⟨rfl, ready⟩ := plain
    rw [settle_plain h ready, settle_plain (a.host h.cells) ready]
    exact .pure ⟨rfl, ready⟩
  | true =>
    intro w x sound
    obtain ⟨u, w', called, awaitable, _, awaited, after⟩ :=
      explained.deferred async v context w sound
    have here : settle h (.value u) = h.await u := by
      simp only [settle, awaitable, if_true]
    rw [runFrom_bind_ok called, here, runFrom_bind_ok (deferred_called v context async x)]
    refine ⟨?_, after⟩
    rw [awaited]
    show Alike Plain (a.call fn v context) (a.call fn v context)
    cases answered : a.call fn v context with
    | error f => exact .error f
    | ok u => exact .ok ⟨rfl, explained.ready v context u answered⟩

/-- Whether a predicate holds; what has to be awaited counts as true. -/
theorem predicate_agrees :
    Related (Beside h a F) Eq
      (h.call fn v context >>= fun u => Engine.ofExcept (u.resolve h.cells).truth)
      ((a.host h.cells).call fn v context >>=
        fun u => Engine.ofExcept (u.resolve h.cells).truth) := by
  cases async : isAsyncFunction fn with
  | false =>
    refine .bind (direct_agrees explained v context async) fun u u' plain => ?_
    obtain ⟨rfl, _⟩ := plain
    exact .ofExcept _
  | true =>
    intro w x sound
    obtain ⟨u, w', called, awaitable, sound', _⟩ := explained.deferred async v context w sound
    have holds : (u.resolve h.cells).truth = .ok true := by
      cases u with
      | awaitable i => rfl
      | _ => cases awaitable
    rw [runFrom_bind_ok called, holds,
      runFrom_bind_ok (deferred_called v context async x)]
    exact ⟨.ok rfl, sound'⟩

end Functions

section Steps

variable {m : Morph} {v context u : Value} {cells : Cells}

theorem meaning_of_awaitOnce (label : Name)
    (ended : ((awaitOnce (a.host cells) label context
      (transform (a.host cells) m.bare v context)).runFrom start).1 = .ok u) :
    a.meaning cells m v context = .ok u := by
  rw [awaitOnce_eq_ok] at ended
  rw [meaning, awaitOnce_eq_ok]
  exact ended

theorem meaning_of_callOnce {head : Header} {label : Name}
    (ended : ((callOnce head label context
      (transform (a.host cells) m.bare v context)).runFrom start).1 = .ok u) :
    a.meaning cells m v context = .ok u := by
  rcases ran : (callOnce head label context
    (transform (a.host cells) m.bare v context)).runFrom start with ⟨r, x⟩
  rw [ran] at ended
  dsimp only at ended
  subst ended
  have awaited := awaitOnce_of_callOnce (a.host cells) ran
  exact meaning_of_awaitOnce label (by rw [awaited])

theorem cache_bare (m : Morph) : m.bare.head.cache = none := by
  rw [head_bare]
  rfl

theorem finishDeferred_agrees {finish : Option Value}
    (explained : ∀ fn ∈ finish.toList, a.ExplainedOnce h (a.Sound h F) fn)
    (plain : v.isAwaitable = false) (context : Value) :
    Related (Beside h a F) Plain (finishDeferred h finish v context)
      (finishDeferred (a.host h.cells) finish v context) := by
  cases finish with
  | none => exact .pure ⟨rfl, plain⟩
  | some fn => exact function_agrees (explained fn (by simp)) v context

end Steps

/-! ### One kind of morph at a time, given how its parts run -/

section Kinds

variable {head : Header} {v context : Value}

theorem value_agrees {m : Morph} (plain : v.isAwaitable = false) :
    Agrees h a F m (pure (.value v)) (pure (.value v)) := by
  have same : Related (Beside h a F) Plain (pure v) (pure v) := .pure ⟨rfl, plain⟩
  exact .of_values same

theorem simple_agrees {fn : Value} (family : a.OnceAwaited h F) (hm : F (.simple head fn)) :
    Agrees h a F (.simple head fn) (transform h (.simple head fn) v context)
      (transform (a.host h.cells) (bare (.simple head fn)) v context) := by
  have explained := family.explained hm fn (by simp [functions])
  have undeclared : head.metadata.isAsync = none := family.undeclared _ hm
  rw [bare, transform, transform]
  cases async : isAsyncFunction fn with
  | false => exact .of_values (direct_agrees explained v context async)
  | true =>
    have kind : (Morph.simple head fn).isAsync = true := by
      simp only [isAsync, undeclared, Option.getD_none, async]
    refine ⟨pending_agrees explained v context async kind, ?_⟩
    rw [map_eq_pure_bind, map_eq_pure_bind, bind_assoc, bind_assoc]
    simp only [pure_bind]
    exact function_agrees explained v context

theorem composed_agrees {steps : List Morph} {finish : Option Value} (family : a.OnceAwaited h F)
    (hm : F (.composed head steps finish))
    (direct : anyAsync steps = false →
      Related (Beside h a F) Plain (runSteps h steps v context)
        (runSteps (a.host h.cells) (bareSteps steps) v context))
    (deferred : Related (Beside h a F) Plain (runStepsDeferred h steps v context)
      (runStepsDeferred (a.host h.cells) (bareSteps steps) v context)) :
    Agrees h a F (.composed head steps finish) (transform h (.composed head steps finish) v context)
      (transform (a.host h.cells) (bare (.composed head steps finish)) v context) := by
  have explained := family.explained hm
  have undeclared : head.metadata.isAsync = none := family.undeclared _ hm
  have kind : (Morph.composed head steps finish).isAsync =
      (anyAsync steps || finish.any isAsyncFunction) := by
    simp only [isAsync, undeclared, Option.getD_none]
  have bareKind := isAsync_bare (.composed head steps finish)
  rw [bare] at bareKind ⊢
  rw [transform, transform, bareKind]
  cases async : (Morph.composed head steps finish).isAsync with
  | true =>
    have runs := bind_agrees Plain.one deferred fun u b same _ _ => by
      obtain ⟨rfl, ready⟩ := same
      exact finishDeferred_agrees explained ready context
    exact .of_deferred async (runs.mapFault Fault.leaveDeferred)
  | false =>
    rw [kind, Bool.or_eq_false_iff] at async
    cases finish with
    | none =>
      have values := Agrees.of_values (m := .composed head steps none) (direct async.1)
      rw [map_eq_pure_bind, map_eq_pure_bind] at values
      exact values
    | some fn =>
      have last : isAsyncFunction fn = false := async.2
      have values := Agrees.of_values (m := .composed head steps (some fn))
        (bind_agrees Plain.one (direct async.1) fun u b same _ _ => by
          obtain ⟨rfl, _⟩ := same
          exact direct_agrees (explained fn (by simp [functions])) u context last)
      rw [map_bind, map_bind] at values
      exact values

theorem conditional_agrees {predicate : Value} {body : Morph} (family : a.OnceAwaited h F)
    (hm : F (.conditional head predicate body)) (plain : v.isAwaitable = false)
    (inner : a.holds h.cells predicate v context = .ok true →
      a.KeyEnds h.cells body v context ∧
        Agrees h a F body (transform h body v context)
          (transform (a.host h.cells) body.bare v context)) :
    Agrees h a F (.conditional head predicate body)
      (transform h (.conditional head predicate body) v context)
      (transform (a.host h.cells) (bare (.conditional head predicate body)) v context) := by
  have explained := family.explained hm predicate (by simp [functions])
  obtain ⟨_, _, declared, _⟩ := family.coherent _ hm
  have hb : F body := family.parts _ hm body (by simp [parts])
  have kind : (Morph.conditional head predicate body).isAsync = body.isAsync := by
    simp only [isAsync, declared, Option.getD_some]
  rw [bare, transform, transform, ← bind_assoc, ← bind_assoc]
  refine .bind (predicate_agrees explained v context) fun holds ended => ?_
  cases holds with
  | false => exact value_agrees plain
  | true =>
    obtain ⟨keyEnds, agrees⟩ := inner ended
    rw [isAsync_bare, name_bare]
    rw [if_pos rfl, if_pos rfl]
    cases async : body.isAsync with
    | true =>
      rw [async] at kind
      rw [executeDeferred_eq_awaitOnce _ (cache_bare body)]
      exact .of_deferred kind (executeDeferred_agrees family hb keyEnds agrees body.name)
    | false =>
      rw [execute_eq_callOnce _ (cache_bare body)]
      exact .of_values (execute_agrees family hb async keyEnds agrees body.name)

theorem pipeline_agrees {info : PipelineInfo} {stages declared : List Stage}
    (family : a.OnceAwaited h F) (hm : F (.pipeline head info stages declared))
    (direct : (stages.any fun s => s.morph.isAsync) = false →
      Related (Beside h a F) Plain (runStages h stages v context)
        (runStages (a.host h.cells) (bareStages stages) v context))
    (deferred : Related (Beside h a F) Plain (runStagesDeferred h stages v context)
      (runStagesDeferred (a.host h.cells) (bareStages stages) v context)) :
    Agrees h a F (.pipeline head info stages declared)
      (transform h (.pipeline head info stages declared) v context)
      (transform (a.host h.cells) (bare (.pipeline head info stages declared)) v context) := by
  obtain ⟨_, async, _⟩ := family.coherent _ hm
  have kind : (Morph.pipeline head info stages declared).isAsync =
      stages.any fun s => s.morph.isAsync := by
    simp only [isAsync, async, Option.getD_some]
  have bareDeclared : head.bare.metadata.isAsync = head.metadata.isAsync := rfl
  rw [bare, transform, transform, bareDeclared, async, Option.getD_some]
  cases any : stages.any fun s => s.morph.isAsync with
  | true =>
    rw [any] at kind
    exact .of_deferred kind deferred
  | false => exact .of_values (direct any)

end Kinds

mutual

/-- Every member of a family agrees with an ideal host on the tree without caches. -/
theorem transform_agrees (family : a.OnceAwaited h F) (m : Morph) (hm : F m) {v context : Value}
    (plain : v.isAwaitable = false) (keys : a.KeysEnd h.cells context m v) :
    Agrees h a F m (transform h m v context) (transform (a.host h.cells) m.bare v context) := by
  cases m with
  | simple head fn => exact simple_agrees family hm
  | identity head => exact value_agrees plain
  | composed head steps finish =>
    have hs : ∀ p ∈ steps, F p := family.parts _ hm
    exact composed_agrees family hm (fun sync => runSteps_agrees family steps hs sync plain keys)
      (runStepsDeferred_agrees family steps hs plain keys)
  | conditional head predicate body =>
    have hb : F body := family.parts _ hm body (by simp [parts])
    refine conditional_agrees family hm plain fun holds => ?_
    obtain ⟨keyEnds, inner⟩ := keys holds
    exact ⟨keyEnds, transform_agrees family body hb plain inner⟩
  | fused head members =>
    have hs : ∀ s ∈ members, F s.morph := fun s hs =>
      family.parts _ hm _ (List.mem_map.mpr ⟨s, hs, rfl⟩)
    rw [bare, transform, transform]
    exact .of_values (runMembers_agrees family members hs plain keys)
  | pipeline head info stages declared =>
    have hs : ∀ s ∈ stages, F s.morph := fun s hs =>
      family.parts _ hm _ (List.mem_map.mpr ⟨s, hs, rfl⟩)
    exact pipeline_agrees family hm (fun sync => runStages_agrees family stages hs sync plain keys)
      (runStagesDeferred_agrees family stages hs plain keys)

theorem runSteps_agrees (family : a.OnceAwaited h F) (steps : List Morph) (hs : ∀ m ∈ steps, F m)
    (sync : anyAsync steps = false) {v context : Value} (plain : v.isAwaitable = false)
    (keys : a.StepsKeysEnd h.cells context steps v) :
    Related (Beside h a F) Plain (runSteps h steps v context)
      (runSteps (a.host h.cells) (bareSteps steps) v context) := by
  cases steps with
  | nil =>
    rw [bareSteps, runSteps, runSteps]
    exact .pure ⟨rfl, plain⟩
  | cons m rest =>
    rw [List.forall_mem_cons] at hs
    rw [anyAsync, Bool.or_eq_false_iff] at sync
    obtain ⟨keyEnds, keys, later⟩ := keys
    have first := execute_agrees family hs.1 sync.1 keyEnds
      (transform_agrees family m hs.1 plain keys) m.name
    rw [bareSteps, runSteps, runSteps, execute_eq_callOnce _ (cache_bare m), name_bare]
    refine bind_agrees Plain.one first fun u b same _ ended => ?_
    obtain ⟨rfl, ready⟩ := same
    exact runSteps_agrees family rest hs.2 sync.2 ready (later u (meaning_of_callOnce ended))

theorem runStepsDeferred_agrees (family : a.OnceAwaited h F) (steps : List Morph)
    (hs : ∀ m ∈ steps, F m) {v context : Value} (plain : v.isAwaitable = false)
    (keys : a.StepsKeysEnd h.cells context steps v) :
    Related (Beside h a F) Plain (runStepsDeferred h steps v context)
      (runStepsDeferred (a.host h.cells) (bareSteps steps) v context) := by
  cases steps with
  | nil =>
    rw [bareSteps, runStepsDeferred, runStepsDeferred]
    exact .pure ⟨rfl, plain⟩
  | cons m rest =>
    rw [List.forall_mem_cons] at hs
    obtain ⟨keyEnds, keys, later⟩ := keys
    have first := executeDeferred_agrees family hs.1 keyEnds
      (transform_agrees family m hs.1 plain keys) m.name
    rw [bareSteps, runStepsDeferred, runStepsDeferred,
      executeDeferred_eq_awaitOnce _ (cache_bare m), name_bare]
    refine bind_agrees Plain.one first fun u b same _ ended => ?_
    obtain ⟨rfl, ready⟩ := same
    exact runStepsDeferred_agrees family rest hs.2 ready (later u (meaning_of_awaitOnce _ ended))

theorem runMembers_agrees (family : a.OnceAwaited h F) (members : List Stage)
    (hs : ∀ s ∈ members, F s.morph) {v context : Value} (plain : v.isAwaitable = false)
    (keys : a.MembersKeysEnd h.cells context members v) :
    Related (Beside h a F) Plain (runMembers h members v context)
      (runMembers (a.host h.cells) (bareStages members) v context) := by
  cases members with
  | nil =>
    rw [bareStages, runMembers, runMembers]
    exact .pure ⟨rfl, plain⟩
  | cons s rest =>
    cases s with
    | mk label m =>
      rw [List.forall_mem_cons] at hs
      obtain ⟨keys, later⟩ := keys
      have named : m.head.name = m.bare.head.name := by
        rw [head_bare]
        rfl
      have first := (transform_agrees family m hs.1 plain keys).callOnce named label context
      rw [bareStages, runMembers, runMembers]
      refine bind_agrees Plain.one first fun u b same _ ended => ?_
      obtain ⟨rfl, ready⟩ := same
      exact runMembers_agrees family rest hs.2 ready (later u (meaning_of_callOnce ended))

theorem runStages_agrees (family : a.OnceAwaited h F) (stages : List Stage)
    (hs : ∀ s ∈ stages, F s.morph) (sync : (stages.any fun s => s.morph.isAsync) = false)
    {v context : Value} (plain : v.isAwaitable = false)
    (keys : a.StagesKeysEnd h.cells context stages v) :
    Related (Beside h a F) Plain (runStages h stages v context)
      (runStages (a.host h.cells) (bareStages stages) v context) := by
  cases stages with
  | nil =>
    rw [bareStages, runStages, runStages]
    exact .pure ⟨rfl, plain⟩
  | cons s rest =>
    cases s with
    | mk label m =>
      rw [List.forall_mem_cons] at hs
      rw [List.any_cons, Bool.or_eq_false_iff] at sync
      obtain ⟨keyEnds, keys, later⟩ := keys
      have first := execute_agrees family hs.1 sync.1 keyEnds
        (transform_agrees family m hs.1 plain keys) label
      rw [bareStages, runStages, runStages, execute_eq_callOnce _ (cache_bare m)]
      refine bind_agrees Plain.one first fun u b same _ ended => ?_
      obtain ⟨rfl, ready⟩ := same
      exact runStages_agrees family rest hs.2 sync.2 ready (later u (meaning_of_callOnce ended))

theorem runStagesDeferred_agrees (family : a.OnceAwaited h F) (stages : List Stage)
    (hs : ∀ s ∈ stages, F s.morph) {v context : Value} (plain : v.isAwaitable = false)
    (keys : a.StagesKeysEnd h.cells context stages v) :
    Related (Beside h a F) Plain (runStagesDeferred h stages v context)
      (runStagesDeferred (a.host h.cells) (bareStages stages) v context) := by
  cases stages with
  | nil =>
    rw [bareStages, runStagesDeferred, runStagesDeferred]
    exact .pure ⟨rfl, plain⟩
  | cons s rest =>
    cases s with
    | mk label m =>
      rw [List.forall_mem_cons] at hs
      obtain ⟨keyEnds, keys, later⟩ := keys
      have first := executeDeferred_agrees family hs.1 keyEnds
        (transform_agrees family m hs.1 plain keys) label
      rw [bareStages, runStagesDeferred, runStagesDeferred,
        executeDeferred_eq_awaitOnce _ (cache_bare m)]
      refine bind_agrees Plain.one first fun u b same _ ended => ?_
      obtain ⟨rfl, ready⟩ := same
      exact runStagesDeferred_agrees family rest hs.2 ready
        (later u (meaning_of_awaitOnce _ ended))

end

end Answers

end MorphEngine
