import MorphEngine.Proofs.Engine

/-!
# What keeps a key from being built

A walk that does not end in a digest has found that there is no fingerprint, or has come to one of
three things: a whole number of too many digits, a member or an object whose names cannot be encoded,
or an object that fails in a way of its own when its content is read. Projecting a context fails where
the names cannot be listed, where an attribute cannot be worked out, and where a selector fails.
Building a key lets pass all of these but the lack of a fingerprint.
-/

namespace MorphEngine

namespace Fingerprint

/-- What a walk goes on to from a scalar. -/
def held (s : Scalar) : List Value :=
  match s.type with
  | .bytes _ => []
  | .record fields => [.tuple (recordItems fields s.bytes)]
  | _ => (Value.item? s).toList

/-- The values that a walk goes on to from a content. -/
def inner : Value → List Value
  | .list xs | .tuple xs | .set xs | .frozenSet xs | .objectArray _ xs => xs
  | .pair a b => [a, b]
  | .table es => es.flatMap fun e => [e.1, e.2]
  | .object _ fs => fs.flatMap fun f => [.text f.1, f.2]
  | .scalar s => held s
  | _ => []

/-- The kinds of faults that reading a content may fail with when there is just no fingerprint. -/
def meansUnreadable (kind : Text) : Bool :=
  kind == "RecursionError" || kind == "PicklingError" ||
    [FaultKind.type, .value, .attribute, .unfingerprintable].contains (FaultKind.ofName kind)

/-- A walk of the value can come to something that ends it with a fault of its own. -/
inductive Breaks (cells : Cells) : Value → Fault → Prop
  | digits {v : Value} {n : Int} (content : (v.resolve cells).bare = .int n)
      (long : Number.isUnwritable n = true) : Breaks cells v .tooManyDigits
  | member {v : Value} {m : Member} {f : Fault} (content : (v.resolve cells).bare = .member m)
      (surrogates : nameFault? (m.owner.module ++ "." ++ m.owner.name ++ "." ++ m.name) = some f) :
      Breaks cells v f
  | object {v : Value} {owner : ClassName} {fs : List (Text × Value)} {f : Fault}
      (content : (v.resolve cells).bare = .object owner fs)
      (surrogates : nameFault? ("dataclass:" ++ owner.module ++ "." ++ owner.name) = some f) :
      Breaks cells v f
  | sealed {v : Value} {kind : Text} (content : (v.resolve cells).bare = .sealed kind)
      (raises : meansUnreadable kind = false) :
      Breaks cells v (.raised kind (some (.text ("opaque " ++ kind))))
  | within {v u : Value} {f : Fault} (among : u ∈ inner (v.resolve cells).bare)
      (breaks : Breaks cells u f) : Breaks cells v f

/-- The faults that a walk ends in satisfy a condition. -/
def FaultsIn {α : Type} (P : Fault → Prop) (walk : Walk α) : Prop :=
  ∀ active f, (walk.run active).1 = .error (.fault f) → P f

namespace FaultsIn

variable {α β : Type} {P Q : Fault → Prop}

theorem pure (a : α) : FaultsIn P (pure a : Walk α) := fun _ _ ended => nomatch ended

theorem tooDeep : FaultsIn P (throw .tooDeep : Walk α) := fun _ _ ended => nomatch ended

theorem refuse {f : Fault} (holds : P f) : FaultsIn P (refuse f : Walk α) := by
  intro _ g ended
  cases ended
  exact holds

theorem mono {walk : Walk α} (faults : FaultsIn P walk) (implies : ∀ f, P f → Q f) :
    FaultsIn Q walk :=
  fun active f ended => implies f (faults active f ended)

theorem bind {walk : Walk α} {next : α → Walk β} (first : FaultsIn P walk)
    (second : ∀ a, FaultsIn P (next a)) : FaultsIn P (walk >>= next) := by
  intro active f ended
  have unfolded : (walk >>= next).run active =
      ExceptT.bindCont next (walk.run active).1 (walk.run active).2 := rfl
  rw [unfolded] at ended
  rcases ran : walk.run active with ⟨o | a, after⟩
  · rw [ran] at ended
    cases ended
    exact first active f (by rw [ran])
  · rw [ran] at ended
    exact second a after f ended

theorem mapM {f : α → Walk β} {xs : List α} (each : ∀ x ∈ xs, FaultsIn P (f x)) :
    FaultsIn P (xs.mapM f) := by
  induction xs with
  | nil => exact pure []
  | cons x xs ih =>
    rw [List.forall_mem_cons] at each
    rw [List.mapM_cons]
    exact each.1.bind fun _ => (ih each.2).bind fun _ => pure _

/-- Entering a container adds only the fault of having met it before. -/
theorem inside {v content : Value} {walk : Walk α} (faults : FaultsIn P walk)
    (again : P (unfingerprintable ("self-referencing " ++ content.typeName))) :
    FaultsIn P (inside v content walk) := by
  unfold Fingerprint.inside
  split
  · next i owner =>
    intro active f ended
    rw [ExceptT.run] at ended
    split at ended
    · cases ended
      exact again
    · exact faults _ f ended
  · exact faults

section Containers

variable {v content : Value} {walk : Value → Walk Digest}
  (again : P (unfingerprintable ("self-referencing " ++ content.typeName)))

include again

theorem items {xs : List Value} {build : List Digest → Digest}
    (each : ∀ u ∈ xs, FaultsIn P (walk u)) :
    FaultsIn P (Fingerprint.inside v content do return build (← xs.mapM walk)) :=
  .inside ((mapM each).bind fun _ => .pure _) again

theorem entries {es : List (Value × Value)} {build : List (Digest × Digest) → Digest}
    (each : ∀ e ∈ es, FaultsIn P (walk e.1) ∧ FaultsIn P (walk e.2)) :
    FaultsIn P (Fingerprint.inside v content do
      return build (← es.mapM fun e => do return (← walk e.1, ← walk e.2))) := by
  refine .inside ((mapM fun e among => ?_).bind fun _ => .pure _) again
  obtain ⟨key, item⟩ := each e among
  exact key.bind fun _ => item.bind fun _ => .pure _

end Containers

end FaultsIn

/-- The faults that leave a walk of a value. -/
abbrev Leaves (cells : Cells) (v : Value) (f : Fault) : Prop :=
  f.isUnfingerprintable = true ∨ Breaks cells v f

theorem intText_faultsIn (n : Int) :
    FaultsIn (fun f => f = .tooManyDigits ∧ Number.isUnwritable n = true) (intText n) := by
  unfold intText
  split
  · next long => exact .refuse ⟨rfl, long⟩
  · exact .pure _

theorem checkName_faultsIn (name : Text) :
    FaultsIn (fun f => nameFault? name = some f) (checkName name) := by
  unfold checkName
  split
  · exact .pure ()
  · next f fails => exact .refuse fails

theorem stored_faultsIn {cells : Cells} {v u : Value} (content : (v.resolve cells).bare = u) :
    FaultsIn (Leaves cells v) (stored u) := by
  unfold stored
  dsimp only
  split
  · exact .pure _
  · next kind =>
    split
    · exact .tooDeep
    · next notDeep =>
      split
      · exact .refuse (Or.inl rfl)
      · next notPickling =>
        split
        · exact .refuse (Or.inl rfl)
        · exact .refuse (Or.inl rfl)
        · exact .refuse (Or.inl rfl)
        · exact .refuse (Or.inl rfl)
        · next notType notValue notAttribute notUnfingerprintable =>
          have apart : [FaultKind.type, .value, .attribute, .unfingerprintable].contains
              (FaultKind.ofName kind) = false := by
            simpa using ⟨notType, notValue, notAttribute, notUnfingerprintable⟩
          refine .refuse (Or.inr (.sealed content ?_))
          rw [meansUnreadable, apart, Bool.or_false, Bool.or_eq_false_iff]
          exact ⟨beq_false_of_ne notDeep, beq_false_of_ne notPickling⟩
  all_goals exact .refuse (Or.inl rfl)

theorem timeDigest_faultsIn (t : Moment.Item) :
    FaultsIn (fun f => f = .tooManyDigits ∧ ∃ n, t = .count n ∧ Number.isUnwritable n = true)
      (timeDigest t) := by
  cases t with
  | count n =>
    refine ((intText_faultsIn n).mono ?_).bind fun _ => .pure _
    rintro f ⟨rfl, long⟩
    exact ⟨rfl, n, rfl, long⟩
  | _ => exact .pure _

theorem item?_of_time {s : Scalar} {isPoint : Bool} {u : TimeUnit} {n : Int}
    (time : (Value.scalar s).time? = some (isPoint, u, n)) :
    Value.item? s = some (Value.ofTime isPoint u n) := by
  rw [Value.item?, time]

theorem mem_held {s : Scalar} {u : Value} (noBytes : ∀ length, s.type = .bytes length → False)
    (noRecord : ∀ fields, s.type = .record fields → False) (item : Value.item? s = some u) :
    u ∈ held s := by
  unfold held
  split
  · next length type => exact (noBytes length type).elim
  · next fields type => exact (noRecord fields type).elim
  · exact Option.mem_toList.mpr item

/-- A walk of a scalar goes on to what the scalar holds. -/
theorem scalar_faultsIn {cells : Cells} {v : Value} {s : Scalar} {fuel : Nat}
    (content : (v.resolve cells).bare = .scalar s)
    (below : ∀ u ∈ inner (.scalar s), FaultsIn (Leaves cells v) (digest cells fuel u)) :
    FaultsIn (Leaves cells v)
      (match s.type, (Value.scalar s).time?, Value.item? s with
        | .bytes _, _, _ => return tagged "bytes_" (Scalar.dropZeroBytes s.bytes)
        | .record fields, _, _ => digest cells fuel (.tuple (recordItems fields s.bytes))
        | _, some (isPoint, u, n), _ => timeDigest (Value.timeItem isPoint u n)
        | _, none, some w => digest cells fuel w
        | _, none, none => throw .tooDeep) := by
  split
  · exact .pure _
  · next fields type => exact below _ (by simp [inner, held, type])
  · next isPoint u n time noBytes noRecord =>
    refine (timeDigest_faultsIn _).mono ?_
    rintro f ⟨rfl, m, counted, long⟩
    have among : Value.int m ∈ inner (v.resolve cells).bare := by
      rw [content]
      refine mem_held noBytes noRecord ?_
      rw [item?_of_time time, Value.ofTime, counted]
    exact Or.inr (.within among (.digits (v := .int m) rfl long))
  · next w time item noBytes noRecord => exact below w (mem_held noBytes noRecord item)
  · exact .tooDeep

/-- A walk fails for want of a fingerprint, or over what it has come to. -/
theorem digest_faultsIn (cells : Cells) (fuel : Nat) (v : Value) :
    FaultsIn (Leaves cells v) (digest cells fuel v) := by
  induction fuel generalizing v with
  | zero => exact .tooDeep
  | succ fuel ih =>
    have below : ∀ u ∈ inner (v.resolve cells).bare,
        FaultsIn (Leaves cells v) (digest cells fuel u) :=
      fun u among => (ih u).mono fun f leaves => leaves.imp_right (.within among)
    rw [digest]
    generalize content : (v.resolve cells).bare = u at below ⊢
    cases u with
    | int n =>
      refine ((intText_faultsIn n).mono ?_).bind fun _ => .pure _
      rintro f ⟨rfl, long⟩
      exact Or.inr (.digits content long)
    | list | tuple | set | frozenSet | objectArray | pair => exact .items (Or.inl rfl) below
    | emptyContext => exact .entries (Or.inl rfl) fun _ none => absurd none List.not_mem_nil
    | table es =>
      refine .entries (Or.inl rfl) fun e among => ?_
      exact ⟨below _ (List.mem_flatMap.mpr ⟨e, among, by simp⟩),
        below _ (List.mem_flatMap.mpr ⟨e, among, by simp⟩)⟩
    | object owner fs =>
      refine .inside (.bind (.mapM fun field listed => ?_) fun _ => .bind ?_ fun _ => .pure _)
        (Or.inl rfl)
      · have name := below (.text field.1) (List.mem_flatMap.mpr ⟨field, listed, by simp⟩)
        have value := below field.2 (List.mem_flatMap.mpr ⟨field, listed, by simp⟩)
        exact name.bind fun _ => value.bind fun _ => .pure _
      · exact (checkName_faultsIn _).mono fun f fails => Or.inr (.object content fails)
    | member m =>
      refine .bind ?_ fun _ => .pure _
      exact (checkName_faultsIn _).mono fun f fails => Or.inr (.member content fails)
    | scalar s => exact scalar_faultsIn content below
    | none | bool | real | complex | text | bytes | buffer | array => exact .pure _
    | _ => exact stored_faultsIn content

/-- What fails other than for want of a fingerprint has come to something. -/
theorem breaks_of_fingerprint {cells : Cells} {v : Value} {f : Fault}
    (failed : fingerprint cells v = .error f) (apart : f.isUnfingerprintable = false) :
    Breaks cells v f := by
  unfold fingerprint fingerprintWithin at failed
  split at failed
  · cases failed
  · cases failed
    cases apart
  · next ended =>
    cases failed
    rcases digest_faultsIn cells depthLimit v [] f ended with lacking | breaks
    · exact absurd (lacking.symm.trans apart) (by decide)
    · exact breaks

end Fingerprint

/-! ### Projections -/

namespace ContextProjection

/-- An attribute that a value fails to work out. -/
inductive FailsToShow : Value → Text → Fault → Prop
  | derived {owner : ClassName} {fs : List (Text × Value)} {name : Text} {f : Fault}
      (fails : Value.derivedAttribute owner fs name = .error f) :
      FailsToShow (.object owner fs) name f
  | transposed {type : ElementType} {shape : List Nat} {bs : List UInt8} {order : AxisOrder}
      (flat : shape.length < 2) :
      FailsToShow (.array type shape bs order) "mT" Value.flatTranspose
  | transposedObjects {shape : List Nat} {xs : List Value} (flat : shape.length < 2) :
      FailsToShow (.objectArray shape xs) "mT" Value.flatTranspose

theorem failsToShow_of_ownAttribute {v : Value} {name : Text} {f : Fault}
    (failed : v.ownAttribute name = .error f) : FailsToShow v name f := by
  cases v with
  | object owner fs =>
    rcases bind_eq_error failed with failed | ⟨shown, _, failed⟩
    · exact .derived failed
    · split at failed <;> cases failed
  | array type shape bs order =>
    rw [Value.ownAttribute] at failed
    split at failed
    · next flat =>
      obtain ⟨rfl, flat⟩ := flat
      cases failed
      exact .transposed flat
    · cases failed
  | objectArray shape xs =>
    rw [Value.ownAttribute] at failed
    split at failed
    · next flat =>
      obtain ⟨rfl, flat⟩ := flat
      cases failed
      exact .transposedObjects flat
    · cases failed
  | part kind id fs members =>
    simp only [Value.ownAttribute] at failed
    split at failed
    · cases failed
    · split at failed <;> cases failed
  | stage label m =>
    simp only [Value.ownAttribute] at failed
    split at failed
    · cases failed
    · split at failed <;> cases failed
  | _ => cases failed

theorem failsToShow_of_attribute {v : Value} {name : Text} {f : Fault}
    (failed : v.attribute? name = .error f) : FailsToShow v.bare name f := by
  unfold Value.attribute? at failed
  dsimp only at failed
  split at failed
  · cases failed
  · rcases bind_eq_error failed with failed | ⟨shown, _, failed⟩
    · exact failsToShow_of_ownAttribute failed
    · split at failed
      · cases failed
      · split at failed
        · cases failed
        · split at failed <;> cases failed

theorem failsToShow_of_part {context n : Value} {f : Fault}
    (failed : context.part? n = .error f) :
    ∃ t, n.text? = some t ∧ FailsToShow context.bare t f := by
  unfold Value.part? at failed
  split at failed
  · cases failed
  · cases reads : n.text? with
    | none =>
      rw [reads] at failed
      cases failed
    | some t =>
      rw [reads] at failed
      exact ⟨t, rfl, failsToShow_of_attribute failed⟩

theorem failsToShow_of_gather {context : Value} {parts : Parts} {names : List Value} {f : Fault}
    (failed : gather context parts names = .error f) :
    ∃ n ∈ names, ∃ t, n.text? = some t ∧ FailsToShow context.bare t f := by
  induction names generalizing parts with
  | nil => cases failed
  | cons n names ih =>
    rw [gather] at failed
    rcases bind_eq_error failed with failed | ⟨part, _, failed⟩
    · exact ⟨n, List.mem_cons_self, failsToShow_of_part failed⟩
    · have later : ∃ n ∈ names, ∃ t, n.text? = some t ∧ FailsToShow context.bare t f := by
        cases part with
        | some v => exact ih failed
        | none => exact ih failed
      obtain ⟨n', among, shows⟩ := later
      exact ⟨n', List.mem_cons_of_mem n among, shows⟩

variable {U : Type} (h : Host U) (p : ContextProjection) (context : Value) (w : World U)

/-- How projecting a context can fail. -/
inductive Fails : Fault → Prop
  | names {f : Fault} (keys : p.kind = .keys) (unlisted : p.names.iterate = .error f) : Fails f
  | attribute {names : List Value} {n : Value} {t : Text} {f : Fault} (keys : p.kind = .keys)
      (listed : p.names.iterate = .ok names) (among : n ∈ names) (reads : n.text? = some t)
      (fails : FailsToShow (context.resolve h.cells).bare t f) : Fails f
  | selector {f : Fault} {w' : World U} (custom : p.kind = .custom)
      (fails : (h.select p.selector context).runFrom w = (.error f, w')) : Fails f

variable {h p context w}

theorem fails_of_project {f : Fault} {w' : World U}
    (failed : (Engine.project h p context).runFrom w = (.error f, w')) : Fails h p context w f := by
  unfold Engine.project at failed
  split at failed
  · cases failed
  · cases failed
  · next custom => exact .selector custom failed
  · next keys =>
    cases listed : p.names.iterate with
    | error g =>
      rw [listed] at failed
      cases failed
      exact .names keys listed
    | ok names =>
      rw [listed, Engine.runFrom_bind_ok (Engine.runFrom_ofExcept _ _), Engine.runFrom_ofExcept]
        at failed
      rcases bind_eq_error (Prod.ext_iff.mp failed).1 with unfound | ⟨parts, _, found⟩
      · obtain ⟨n, among, t, reads, fails⟩ := failsToShow_of_gather unfound
        exact .attribute keys listed among reads fails
      · cases found

end ContextProjection

/-! ### Keys -/

section Keys

variable {U : Type} (h : Host U) (p : ContextProjection) (input context : Value) (w : World U)

/-- How building a key can fail: over the input, over the projection, or over what it selects. -/
inductive KeyFails : Fault → Prop
  | input {f : Fault} (breaks : Fingerprint.Breaks h.cells input f) : KeyFails f
  | projection {f : Fault} (fails : p.Fails h context w f) : KeyFails f
  | part {u : Value} {w' : World U} {f : Fault}
      (projected : (Engine.project h p context).runFrom w = (.ok u, w'))
      (breaks : Fingerprint.Breaks h.cells u f) : KeyFails f

variable {h p input context w}

/-- Building a key lets out no fault of lacking a fingerprint. -/
theorem keyFails_of_fingerprints {f : Fault} {w' : World U}
    (failed : (Engine.fingerprints h input (Engine.project h p context)).runFrom w =
      (.error f, w')) :
    f.isUnfingerprintable = false ∧ KeyFails h p input context w f := by
  rw [Engine.fingerprints, Engine.runFrom_orElse] at failed
  split at failed
  · cases failed
  · next g w₁ ran =>
    by_cases lacking : g.isUnfingerprintable = true
    · rw [if_pos lacking] at failed
      cases failed
    · rw [if_neg lacking] at failed
      cases failed
      have apart : f.isUnfingerprintable = false := Bool.eq_false_iff.mpr lacking
      refine ⟨apart, ?_⟩
      rcases Engine.runFrom_bind_eq_error ran with ended | ⟨a, w₂, read, ran⟩
      · exact .input (Fingerprint.breaks_of_fingerprint (Prod.ext_iff.mp ended).1 apart)
      · obtain ⟨_, rfl⟩ := Prod.ext_iff.mp read
        rcases Engine.runFrom_bind_eq_error ran with ended | ⟨u, w₃, projected, ran⟩
        · exact .projection (ContextProjection.fails_of_project ended)
        · rcases Engine.runFrom_bind_eq_error ran with ended | ⟨b, w₄, _, ran⟩
          · exact .part projected
              (Fingerprint.breaks_of_fingerprint (Prod.ext_iff.mp ended).1 apart)
          · cases ran

end Keys

end MorphEngine
