import MorphEngine.Proofs.Fingerprint.Messages

/-!
# The layers of a walk

A walk deals with each content that it meets in one of four ways: it hashes a message that the content
gives by itself, it goes on to parts and hashes what their digests make up, it passes on to another
value, or it ends without a digest. Only an object whose class has a name that cannot be encoded has
parts whose digests make up nothing. A walk is taken apart here into such layers, so that what holds of
it can be proved once for each of the four. The bytes that a walk hashes last are its writing.
-/

namespace MorphEngine.Fingerprint

/-- What digests make up: a message, or the fault that keeps it from being written. -/
abbrev Message := List Digest → Except Fault (List UInt8)

/-- What a walk does with one content. -/
inductive Layer where
  | whole (message : List UInt8)
  | parts (xs : List Value) (message : Message)
  | through (v : Value)
  | ends (o : Obstacle)

namespace Layer

/-- The values that a walk goes on to. -/
def next : Layer → List Value
  | parts xs _ => xs
  | through v => [v]
  | whole _ | ends _ => []

end Layer

def granted {α : Type} : Except Fault α → Walk α
  | .ok a => return a
  | .error f => refuse f

/-- The message of parts, given how they are walked. -/
def assembled (step : Value → Walk Digest) (xs : List Value) (message : Message) :
    Walk (List UInt8) := do
  granted (message (← xs.mapM step))

/-- The walk of a value with this layer, given how its parts are walked. -/
def Layer.walk (v content : Value) (step : Value → Walk Digest) : Layer → Walk Digest
  | whole message => return Blake2b.hash message
  | parts xs message => inside v content (Blake2b.hash <$> assembled step xs message)
  | through u => step u
  | ends o => throw o

/-- Digests two by two. -/
def couples : List Digest → List (Digest × Digest)
  | d :: e :: rest => (d, e) :: couples rest
  | _ => []

def closed (tag : Text) (payload : List UInt8) : List UInt8 := Opening.bytes.closed tag ++ payload

def tableMessage (tag : Text) : Message := fun ds =>
  .ok (closed tag (sorted ((couples ds).map fun e => e.1.bytes ++ e.2.bytes)))

def objectMessage (tag : Text) : Message := fun ds =>
  match nameFault? tag with
  | none => tableMessage tag ds
  | some f => .error f

def collectionMessage (tag : Text) : Message := fun ds =>
  .ok (closed tag (sorted (ds.map (·.bytes))))

def sequenceMessage (tag : Text) : Message := fun ds => .ok (tag.bytes ++ joined ds)

/-- The message of an array: the code of its element type, its shape, and its elements row by row. -/
def arrayMessage (type : ElementType) (shape : List Nat) (bs : List UInt8) : List UInt8 :=
  closed "ndarray" ((type.code ++ "|" ++ shapeText shape ++ "|").bytes ++ bs)

/-- What keeps a value without structure from being stored. -/
def lacking (v : Value) : Obstacle :=
  match ((stored v).run []).1 with
  | .error o => o
  | .ok _ => .tooDeep

namespace Layer

def ofInt (n : Int) : Layer :=
  if Number.isUnwritable n then ends (.fault .tooManyDigits)
  else whole (closed "int" (Text.ofInt n).bytes)

def ofName (name : Text) : Layer :=
  match nameFault? name with
  | none => whole (closed "enum" name.bytes)
  | some f => ends (.fault f)

def ofStoredTime (name : Text) (arguments : List UInt8) : Layer :=
  whole (closed ("pickle:" ++ name)
    (framed (classBytes ⟨"datetime", name⟩ ++ arguments ++ [0x94, 0x52, 0x94, 0x2e])))

def ofTime : Moment.Item → Layer
  | .missing => whole (closed "none" [])
  | .count n => ofInt n
  | .span days seconds micros =>
    ofStoredTime "timedelta" (storedInt days ++ storedInt seconds ++ storedInt micros ++ [0x87])
  | .date d => ofStoredTime "date" (storedBytes (dateBytes d))
  | .instant d seconds micros =>
    let clock := [seconds / 3600, seconds / 60 % 60, seconds % 60].map Nat.toUInt8
    ofStoredTime "datetime"
      (storedBytes (dateBytes d ++ clock ++ (Scalar.ofNat 3 micros).reverse))

def ofScalar (s : Scalar) : Layer :=
  match s.type, (Value.scalar s).time?, Value.item? s with
  | .bytes _, _, _ => whole (closed "bytes_" (Scalar.dropZeroBytes s.bytes))
  | .record fields, _, _ => through (.tuple (recordItems fields s.bytes))
  | _, some (isPoint, u, n), _ => ofTime (Value.timeItem isPoint u n)
  | _, none, some w => through w
  | _, none, none => ends .tooDeep

/-- The layer of a content. -/
def ofContent : Value → Layer
  | .none => whole (closed "none" [])
  | .bool b => whole (closed "bool" [if b then 49 else 48])
  | .member m => ofName (m.owner.module ++ "." ++ m.owner.name ++ "." ++ m.name)
  | .int n => ofInt n
  | .real x => whole (closed "float" (Real.hexText x).bytes)
  | .complex re im => whole (closed "complex" (complexText re im).bytes)
  | .text t => whole (closed "str" t.bytes)
  | .bytes bs => whole (closed "bytes" bs)
  | .buffer bs => whole (closed "bytearray" bs)
  | .array type shape bs _ => whole (arrayMessage type shape bs)
  | .objectArray shape xs => parts xs (sequenceMessage ("ndarray-object" ++ shapeText shape))
  | .scalar s => ofScalar s
  | .emptyContext => parts [] (tableMessage "dict")
  | .table es => parts (es.flatMap fun e => [e.1, e.2]) (tableMessage "dict")
  | .list xs => parts xs (sequenceMessage "list")
  | .tuple xs => parts xs (sequenceMessage "tuple")
  | .pair a b => parts [a, b] (sequenceMessage "Pair")
  | .set xs => parts xs (collectionMessage "set")
  | .frozenSet xs => parts xs (collectionMessage "frozenset")
  | .object owner fs =>
    parts (fs.flatMap fun f => [.text f.1, f.2])
      (objectMessage ("dataclass:" ++ owner.module ++ "." ++ owner.name))
  | .builtin b =>
    whole (closed ("pickle:" ++ (Value.builtin b).typeName) (framed (classBytes b.owner ++ [0x2e])))
  | v => ends (lacking v)

end Layer

/-- The layer of a value: that of the content behind its cell or mark. -/
def layer (cells : Cells) (v : Value) : Layer := Layer.ofContent (v.resolve cells).bare

/-! ### A walk is the walk of its layers -/

theorem tagged_eq_closed (tag : Text) (payload : List UInt8) :
    tagged tag payload = Blake2b.hash (closed tag payload) := tagged_eq_hash tag payload

theorem couples_mapM (step : Value → Walk Digest) (es : List (Value × Value)) :
    couples <$> (es.flatMap fun e => [e.1, e.2]).mapM step =
      es.mapM fun e => do return (← step e.1, ← step e.2) := by
  induction es with
  | nil => rfl
  | cons e es ih =>
    simp only [List.flatMap_cons, List.cons_append, List.nil_append, List.mapM_cons, ← ih,
      map_bind, bind_assoc, map_pure, pure_bind, bind_map_left, couples]

/-- A digest that is built of digests is the hash of a message. -/
theorem built_walk (walk : Walk (List Digest)) (message : List Digest → List UInt8) :
    (do return Blake2b.hash (message (← walk))) =
      Blake2b.hash <$> (do granted (.ok (message (← walk)))) := by
  simp only [granted, map_bind, map_pure]

theorem sequence_walk (tag : Text) (walk : Walk (List Digest)) :
    (do return sequenceDigest tag (← walk)) =
      Blake2b.hash <$> (do granted (sequenceMessage tag (← walk))) :=
  built_walk walk fun ds => tag.bytes ++ joined ds

theorem members_walk (tag : Text) (walk : Walk (List Digest)) :
    (do return membersDigest tag (← walk)) =
      Blake2b.hash <$> (do granted (collectionMessage tag (← walk))) := by
  simp only [membersDigest, tagged_eq_closed]
  exact built_walk walk _

theorem entries_walk (tag : Text) (step : Value → Walk Digest) (es : List (Value × Value)) :
    (do
      let ds ← es.mapM fun e : Value × Value => do return (← step e.1, ← step e.2)
      return entriesDigest tag ds) =
      Blake2b.hash <$> assembled step (es.flatMap fun e => [e.1, e.2]) (tableMessage tag) := by
  rw [← couples_mapM, bind_map_left]
  simp only [entriesDigest, tagged_eq_closed]
  exact built_walk _ _

/-- The name of a class is looked at behind its fields. -/
theorem fields_walk (tag : Text) (step : Value → Walk Digest) (es : List (Value × Value)) :
    (do
      let ds ← es.mapM fun e : Value × Value => do return (← step e.1, ← step e.2)
      checkName tag
      return entriesDigest tag ds) =
      Blake2b.hash <$> assembled step (es.flatMap fun e => [e.1, e.2]) (objectMessage tag) := by
  unfold checkName assembled objectMessage
  cases nameFault? tag with
  | none =>
    simp only [pure_bind]
    exact entries_walk tag step es
  | some f =>
    rw [← couples_mapM, bind_map_left, map_bind]
    rfl

theorem flatMap_fields (fs : List (Text × Value)) :
    (fs.map fun f => (Value.text f.1, f.2)).flatMap (fun e => [e.1, e.2]) =
      fs.flatMap fun f => [.text f.1, f.2] := by
  rw [List.flatMap_map]

theorem stored_eq_throw {v : Value} (other : ∀ b, v ≠ .builtin b) :
    stored v = throw (lacking v) := by
  have thrown {o : Obstacle} (same : stored v = throw o) : stored v = throw (lacking v) := by
    rw [same, lacking, same]
    rfl
  cases v with
  | builtin b => exact absurd rfl (other b)
  | «sealed» kind =>
    by_cases deep : kind = "RecursionError"
    · exact thrown (by simp only [stored, if_pos deep]; rfl)
    · by_cases pickling : kind = "PicklingError"
      · exact thrown (by simp only [stored, if_neg deep, if_pos pickling]; rfl)
      · cases named : FaultKind.ofName kind <;>
          exact thrown (by simp only [stored, if_neg deep, if_neg pickling, named]; rfl)
  | _ => exact thrown rfl

section Walks

variable (v content : Value) (step : Value → Walk Digest)

theorem int_walk (n : Int) :
    (do return tagged "int" (← intText n).bytes) = (Layer.ofInt n).walk v content step := by
  unfold intText Layer.ofInt
  split
  · rfl
  · rw [pure_bind, tagged_eq_closed]
    rfl

theorem name_walk (name : Text) :
    (do
      checkName name
      return tagged "enum" name.bytes) = (Layer.ofName name).walk v content step := by
  unfold checkName Layer.ofName
  cases nameFault? name with
  | none =>
    rw [pure_bind, tagged_eq_closed]
    rfl
  | some f => rfl

theorem time_walk (t : Moment.Item) : timeDigest t = (Layer.ofTime t).walk v content step := by
  cases t with
  | count n => exact int_walk v content step n
  | _ => exact congrArg pure (tagged_eq_closed _ _)

theorem scalar_walk (s : Scalar) :
    (match s.type, (Value.scalar s).time?, Value.item? s with
      | .bytes _, _, _ => return tagged "bytes_" (Scalar.dropZeroBytes s.bytes)
      | .record fields, _, _ => step (.tuple (recordItems fields s.bytes))
      | _, some (isPoint, u, n), _ => timeDigest (Value.timeItem isPoint u n)
      | _, none, some w => step w
      | _, none, none => throw .tooDeep) = (Layer.ofScalar s).walk v content step := by
  unfold Layer.ofScalar
  split
  · exact congrArg pure (tagged_eq_closed _ _)
  · rfl
  · exact time_walk v content step _
  · rfl
  · rfl

end Walks

theorem digest_succ (cells : Cells) (n : Nat) (v : Value) :
    digest cells (n + 1) v =
      (layer cells v).walk v (v.resolve cells) (digest cells n) := by
  rw [digest, layer]
  generalize v.resolve cells = content
  generalize content.bare = u
  cases u with
  | none | bool | real | complex | text | bytes | buffer | array | builtin =>
    exact congrArg pure (tagged_eq_closed _ _)
  | member m => exact name_walk v content (digest cells n) _
  | int k => exact int_walk v content (digest cells n) k
  | scalar s => exact scalar_walk v content (digest cells n) s
  | list | tuple | pair | objectArray => exact congrArg (inside v content) (sequence_walk _ _)
  | set | frozenSet => exact congrArg (inside v content) (members_walk _ _)
  | emptyContext => exact congrArg (inside v content) (entries_walk _ _ [])
  | table es => exact congrArg (inside v content) (entries_walk _ _ es)
  | object owner fs =>
    have fields := fields_walk ("dataclass:" ++ owner.module ++ "." ++ owner.name)
      (digest cells n) (fs.map fun f => (.text f.1, f.2))
    rw [flatMap_fields, List.mapM_map] at fields
    exact congrArg (inside v content) fields
  | _ => exact stored_eq_throw fun b same => by cases same

theorem inside_of_ne_cell {α : Type} {v content : Value} (other : ∀ i owner, v ≠ .cell i owner)
    (walk : Walk α) : inside v content walk = walk := by
  cases v with
  | cell i owner => exact absurd rfl (other i owner)
  | _ => rfl

/-- What a scalar holds is an atom without a mark, times apart. -/
theorem atom_of_item? {s : Scalar} {w : Value} (untimed : (Value.scalar s).time? = none)
    (held : Value.item? s = some w) : w.bare = w ∧ ∃ a, node? w = some (.atom a) := by
  unfold Value.item? at held
  rw [untimed] at held
  split at held
  case h_1 timed => cases timed
  case h_5 =>
    obtain ⟨x, -, rfl⟩ := Option.map_eq_some_iff.mp held
    exact ⟨rfl, _, rfl⟩
  case h_6 =>
    obtain ⟨re, -, held⟩ := Option.bind_eq_some_iff.mp held
    obtain ⟨im, -, held⟩ := Option.bind_eq_some_iff.mp held
    cases held
    exact ⟨rfl, _, rfl⟩
  case h_10 => cases held
  all_goals
    cases held
    exact ⟨rfl, _, rfl⟩

/-! ### What a walk hashes last -/

/-- The bytes whose hash is the digest of a value under `n` levels of nesting. -/
def writing (cells : Cells) : Nat → Value → Walk (List UInt8)
  | 0, _ => throw .tooDeep
  | n + 1, v =>
    match layer cells v with
    | .whole message => return message
    | .parts xs message => inside v (v.resolve cells) (assembled (digest cells n) xs message)
    | .through u => writing cells n u
    | .ends o => throw o

theorem map_run {α β : Type} (f : α → β) (walk : Walk α) (active : List Nat) :
    (f <$> walk).run active = ((walk.run active).1.map f, (walk.run active).2) := by
  rw [ExceptT.run_map]
  rfl

theorem map_eq_ok {α β : Type} {f : α → β} {walk : Walk α} {active : List Nat} {b : β}
    (walked : ((f <$> walk).run active).1 = .ok b) :
    ∃ a, (walk.run active).1 = .ok a ∧ f a = b := by
  rw [map_run] at walked
  cases result : (walk.run active).1 with
  | ok a =>
    rw [result] at walked
    exact ⟨a, rfl, Except.ok.inj walked⟩
  | error o =>
    rw [result] at walked
    cases walked

theorem inside_cell {α : Type} (i : Nat) (owner : ClassName) (content : Value) (walk : Walk α)
    (active : List Nat) :
    (inside (.cell i owner) content walk).run active =
      if active.contains i then
        (.error (.fault (unfingerprintable ("self-referencing " ++ content.typeName))), active)
      else ((walk.run (i :: active)).1, (walk.run (i :: active)).2.erase i) := rfl

theorem inside_eq_ok {α : Type} {v content : Value} {walk : Walk α} {active : List Nat} {a : α}
    (walked : ((inside v content walk).run active).1 = .ok a) :
    ∃ active', (walk.run active').1 = .ok a := by
  cases v with
  | cell i owner =>
    rw [inside_cell] at walked
    split at walked
    · cases walked
    · exact ⟨_, walked⟩
  | _ => exact ⟨_, walked⟩

/-- A message is made of the digests of the parts. -/
theorem assembled_eq_ok {step : Value → Walk Digest} {xs : List Value} {message : Message}
    {active : List Nat} {s : List UInt8}
    (walked : ((assembled step xs message).run active).1 = .ok s) :
    ∃ ds, ((xs.mapM step).run active).1 = .ok ds ∧ message ds = .ok s := by
  rw [assembled, bind_run] at walked
  cases digests : ((xs.mapM step).run active).1 with
  | error o =>
    rw [digests] at walked
    cases walked
  | ok ds =>
    rw [digests] at walked
    refine ⟨ds, rfl, ?_⟩
    cases written : message ds with
    | ok t =>
      simp only [ExceptT.bindCont, written] at walked
      cases walked
      rfl
    | error f =>
      simp only [ExceptT.bindCont, written] at walked
      cases walked

theorem inside_map {α β : Type} (f : α → β) (v content : Value) (walk : Walk α) :
    inside v content (f <$> walk) = f <$> inside v content walk := by
  cases v with
  | cell i owner =>
    funext active
    refine Eq.trans ?_ (map_run f _ active).symm
    refine (inside_cell i owner content _ active).trans ?_
    rw [inside_cell]
    split
    · rfl
    · rw [map_run]
  | _ => rfl

theorem digest_eq_hash (cells : Cells) (n : Nat) (v : Value) :
    digest cells n v = Blake2b.hash <$> writing cells n v := by
  induction n generalizing v with
  | zero => rfl
  | succ n ih =>
    rw [digest_succ, writing]
    cases layer cells v with
    | whole message => rfl
    | parts xs message => rw [Layer.walk, inside_map]
    | through u => exact ih u
    | ends o => rfl

theorem fingerprintWithin_eq_ok_iff {cells : Cells} {v : Value} {levels : Nat} {d : Digest} :
    fingerprintWithin levels cells v = .ok d ↔ ((digest cells levels v).run []).1 = .ok d := by
  unfold fingerprintWithin
  split
  · next walked => simp only [walked, Except.ok.injEq]
  · next walked => exact iff_of_false (by nofun) (by rw [walked]; nofun)
  · next walked => exact iff_of_false (by nofun) (by rw [walked]; nofun)

/-- The bytes whose hash is the fingerprint of a value. -/
def Writes (cells : Cells) (v : Value) (s : List UInt8) : Prop :=
  ((writing cells depthLimit v).run []).1 = .ok s

theorem fingerprint_eq_ok_iff {cells : Cells} {v : Value} {d : Digest} :
    fingerprint cells v = .ok d ↔ ∃ s, Writes cells v s ∧ Blake2b.hash s = d := by
  unfold Writes
  rw [fingerprint, fingerprintWithin_eq_ok_iff, digest_eq_hash, map_run]
  cases ((writing cells depthLimit v).run []).1 with
  | ok s => simp only [Except.map, Except.ok.injEq, exists_eq_left']
  | error o => simp only [Except.map, reduceCtorEq, false_and, exists_false]

theorem Writes.unique {cells : Cells} {v : Value} {s t : List UInt8} (first : Writes cells v s)
    (second : Writes cells v t) : s = t :=
  Except.ok.inj (first.symm.trans second)

end MorphEngine.Fingerprint
