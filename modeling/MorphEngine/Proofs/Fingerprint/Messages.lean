import MorphEngine.Proofs.Fingerprint.Structure

/-!
# What is hashed

The fingerprint of a structured value is the hash of the value's message. The message of an atom
holds the atom. Every other message holds the hashes of the messages of the parts. A fingerprint is
lacking only where a member of an enumeration or a class has a name that cannot be encoded; the walk
then ends in the fault of the first such name.
-/

namespace MorphEngine.Fingerprint

def Atom.payload : Atom → List UInt8
  | none => []
  | bool b => [if b then 49 else 48]
  | member name => name.bytes
  | int n => (Text.ofInt n).bytes
  | real x => x.text.bytes
  | complex re im => (re.text ++ ":" ++ im.text).bytes
  | text t => t.bytes
  | bytes bs | buffer bs => bs

namespace Node

def opening : Node → Opening
  | atom a => .atom a.kind
  | sequence kind _ => .sequence kind
  | collection kind _ => .collection kind
  | table .dict _ => .dict
  | table (.dataclass _) _ => .dataclass

/-- The digests of keys and values side by side. -/
def chunks (summary : Value → Digest) (es : List (Value × Value)) : List (List UInt8) :=
  es.map fun e => (summary e.1).bytes ++ (summary e.2).bytes

/-- What follows the opening of a message, given the digests of the parts. -/
def body (summary : Value → Digest) : Node → List UInt8
  | atom a => a.payload
  | sequence _ xs => joined (xs.map summary)
  | collection _ xs => sorted (xs.map fun x => (summary x).bytes)
  | table .dict es => sorted (chunks summary es)
  | table (.dataclass name) es => name.bytes ++ 0 :: sorted (chunks summary es)

end Node

/-- The message of a value with structure in so many levels. -/
def message : Nat → Value → List UInt8
  | 0, _ => []
  | n + 1, v =>
    (node? v).elim [] fun p => p.opening.bytes ++ p.body fun w => Blake2b.hash (message n w)

/-- The hash of a value's message. -/
def summary (n : Nat) (v : Value) : Digest := Blake2b.hash (message n v)

/-- All messages that are hashed on the way to a fingerprint. -/
def hashed : Nat → Value → List (List UInt8)
  | 0, _ => []
  | n + 1, v => message (n + 1) v :: ((node? v).elim [] Node.children).flatMap (hashed n)

/-- Two values bring up different messages with the same hash. -/
def Collide (n : Nat) (v w : Value) : Prop :=
  ∃ s ∈ hashed n v, ∃ t ∈ hashed n w, s ≠ t ∧ Blake2b.hash s = Blake2b.hash t

section Levels

variable {n : Nat} {v w : Value} {p q : Node}

theorem message_succ (hv : node? v = some p) :
    message (n + 1) v = p.opening.bytes ++ p.body (summary n) := by
  rw [message, hv, Option.elim_some]
  rfl

theorem message_mem_hashed (structured : isStructured n v = true) : message n v ∈ hashed n v := by
  cases n with
  | zero => cases structured
  | succ n => exact List.mem_cons_self

theorem hashed_of_child (hv : node? v = some p) {x : Value} (hx : x ∈ p.children)
    {s : List UInt8} (hs : s ∈ hashed n x) : s ∈ hashed (n + 1) v := by
  rw [hashed, hv, Option.elim_some]
  exact List.mem_cons_of_mem _ (List.mem_flatMap.mpr ⟨x, hx, hs⟩)

/-- Parts that collide make the wholes collide. -/
theorem Collide.of_children (hv : node? v = some p) (hw : node? w = some q) {x y : Value}
    (hx : x ∈ p.children) (hy : y ∈ q.children) (collide : Collide n x y) :
    Collide (n + 1) v w := by
  obtain ⟨s, hs, t, ht, apart, same⟩ := collide
  exact ⟨s, hashed_of_child hv hx hs, t, hashed_of_child hw hy ht, apart, same⟩

end Levels

/-! ### The walk -/

theorem bind_run {α β : Type} (walk : Walk α) (next : α → Walk β) (active : List Nat) :
    (walk >>= next).run active =
      ExceptT.bindCont next (walk.run active).1 (walk.run active).2 := rfl

/-- A walk comes to the same wherever it starts, and leaves behind all that it has entered. -/
def Gives {α : Type} (walk : Walk α) (r : Except Obstacle α) : Prop :=
  ∀ active, walk.run active = (r, active)

section Outcomes

variable {α β : Type} {walk : Walk α} {next : α → Walk β} {a : α} {b : β}

namespace Gives

theorem pure (a : α) : Gives (pure a) (.ok a) := fun _ => rfl

theorem bind_ok {r : Except Obstacle β} (first : Gives walk (.ok a)) (second : Gives (next a) r) :
    Gives (walk >>= next) r := by
  intro active
  rw [bind_run, first active]
  exact second active

theorem bind_error {o : Obstacle} (first : Gives walk (.error o)) (next : α → Walk β) :
    Gives (walk >>= next) (.error o) := by
  intro active
  rw [bind_run, first active]
  rfl

end Gives

/-- A walk gives a result when all names on it can be encoded, and the fault of one that cannot
otherwise. -/
inductive GivesNamed (walk : Walk α) (a : α) : Bool → Prop
  | result (gives : Gives walk (.ok a)) : GivesNamed walk a true
  | fault {f : Fault} (lacking : IsNameFault f) (gives : Gives walk (.error (.fault f))) :
      GivesNamed walk a false

namespace GivesNamed

theorem pure (a : α) : GivesNamed (pure a) a true := .result (.pure a)

theorem bind {m n : Bool} (first : GivesNamed walk a m) (second : GivesNamed (next a) b n) :
    GivesNamed (walk >>= next) b (m && n) := by
  cases first with
  | fault lacking gives => exact .fault lacking (gives.bind_error next)
  | result gives =>
    cases second with
    | result gives' => exact .result (gives.bind_ok gives')
    | fault lacking gives' => exact .fault lacking (gives.bind_ok gives')

/-- What is made of a result by itself does not fail. -/
theorem map {n : Bool} (first : GivesNamed walk a n) (second : Gives (next a) (.ok b)) :
    GivesNamed (walk >>= next) b n := by
  rw [← Bool.and_true n]
  exact first.bind (.result second)

theorem mapM {f : α → Walk β} {g : α → β} {n : α → Bool} {xs : List α}
    (each : ∀ x ∈ xs, GivesNamed (f x) (g x) (n x)) :
    GivesNamed (xs.mapM f) (xs.map g) (xs.all n) := by
  induction xs with
  | nil => exact pure []
  | cons x xs ih =>
    rw [List.forall_mem_cons] at each
    rw [List.mapM_cons, List.all_cons]
    exact each.1.bind ((ih each.2).map (.pure _))

end GivesNamed

end Outcomes

theorem checkName_gives (name : Text) : GivesNamed (checkName name) () (isEncodable name) := by
  unfold checkName
  cases fault : nameFault? name with
  | none =>
    rw [nameFault?_eq_none_iff.mp fault]
    exact .pure ()
  | some f =>
    have surrogates : isEncodable name = false := by
      rw [← Bool.not_eq_true, ← nameFault?_eq_none_iff, fault]
      nofun
    rw [surrogates]
    exact .fault (isNameFault_of_nameFault? fault) fun _ => rfl

/-- Only cells and parts of an engine stand for something else. -/
theorem resolve_of_node {v : Value} {p : Node} (hv : node? v = some p) (cells : Cells) :
    v.resolve cells = v := by
  cases v with
  | cell i owner => cases hv
  | part kind i attributes members => cases hv
  | _ => rfl

theorem inside_of_node {α : Type} {v : Value} {p : Node} (hv : node? v = some p) (content : Value)
    (walk : Walk α) : inside v content walk = walk := by
  cases v with
  | cell i owner => cases hv
  | _ => rfl

theorem tagged_eq_hash (tag : Text) (payload : List UInt8) :
    tagged tag payload = Blake2b.hash (Opening.bytes.closed tag ++ payload) := by
  rw [tagged, Opening.bytes.closed, List.append_assoc]
  rfl

theorem tagged_dataclass (owner : ClassName) (payload : List UInt8) :
    tagged ("dataclass:" ++ owner.module ++ "." ++ owner.name) payload =
      Blake2b.hash (Opening.dataclass.bytes ++ (owner.dotted.bytes ++ 0 :: payload)) := by
  simp only [tagged, ClassName.dotted, Opening.bytes, Text.bytes_append, List.append_assoc]

theorem membersDigest_map (tag : Text) (summary : Value → Digest) (xs : List Value) :
    membersDigest tag (xs.map summary) =
      Blake2b.hash (Opening.bytes.closed tag ++ sorted (xs.map fun x => (summary x).bytes)) := by
  rw [membersDigest, tagged_eq_hash, List.map_map]
  rfl

theorem entriesDigest_map (tag : Text) (summary : Value → Digest) (es : List (Value × Value)) :
    entriesDigest tag (es.map fun e => (summary e.1, summary e.2)) =
      tagged tag (sorted (Node.chunks summary es)) := by
  rw [entriesDigest, List.map_map]
  rfl

section Named

variable {n : Nat} {v : Value} {p : Node}

theorem isNamed_succ (hv : node? v = some p) :
    isNamed (n + 1) v = (p.isNamed && p.children.all (isNamed n)) := by
  rw [isNamed, hv, Option.all_some]

theorem all_table {kind : TableKind} {es : List (Value × Value)} {P : Value → Bool} :
    (Node.table kind es).children.all P = es.all fun e => P e.1 && P e.2 := by
  simp only [Node.children, List.all_flatMap, List.all_cons, List.all_nil, Bool.and_true]

theorem isEncodable_dataclass (owner : ClassName) :
    isEncodable ("dataclass:" ++ owner.module ++ "." ++ owner.name) = isEncodable owner.dotted := by
  have plain : isEncodable ("dataclass:" : Text) = true := by decide
  simp only [ClassName.dotted, isEncodable_append, plain, Bool.true_and]

end Named

/-- The walk of a structured value gives the hash of its message, or stops at a name. -/
theorem digest_gives (cells : Cells) {n : Nat} {v : Value} (structured : isStructured n v = true) :
    GivesNamed (digest cells n v) (summary n v) (isNamed n v) := by
  induction n generalizing v with
  | zero => cases structured
  | succ n ih =>
    obtain ⟨p, hv, regular, parts⟩ := exists_node structured
    have items (xs : List Value) (hxs : ∀ x ∈ xs, x ∈ p.children) :
        GivesNamed (xs.mapM (digest cells n)) (xs.map (summary n)) (xs.all (isNamed n)) :=
      .mapM fun x hx => ih (parts x (hxs x hx))
    have entries {kind : TableKind} {es : List (Value × Value)} (hp : p = .table kind es) :
        GivesNamed (es.mapM fun e => do return (← digest cells n e.1, ← digest cells n e.2))
          (es.map fun e => (summary n e.1, summary n e.2))
          (es.all fun e => isNamed n e.1 && isNamed n e.2) := by
      refine .mapM fun e he => ?_
      have key : e.1 ∈ p.children := hp ▸ Node.key_mem_children (List.mem_map_of_mem he)
      have value : e.2 ∈ p.children := hp ▸ Node.value_mem_children (List.mem_map_of_mem he)
      exact (ih (parts _ key)).bind ((ih (parts _ value)).map (.pure _))
    rw [summary, message_succ hv, isNamed_succ hv, digest, resolve_of_node hv]
    simp only [inside_of_node hv]
    have top := hv
    rw [node?] at top
    generalize v.bare = u at top ⊢
    cases u with
    | none | bool | real | complex | text | bytes | buffer =>
      cases top
      dsimp only
      rw [tagged_eq_hash]
      exact .pure _
    | member m =>
      cases top
      rw [Node.children, List.all_nil, Bool.and_true]
      refine (checkName_gives _).map ?_
      rw [tagged_eq_hash]
      exact .pure _
    | int k =>
      cases top
      have writable : Number.isUnwritable k = false := by
        rw [Node.isRegular, Bool.not_eq_true'] at regular
        exact regular
      dsimp only
      rw [intText, if_neg (Bool.eq_false_iff.mp writable), pure_bind, tagged_eq_hash]
      exact .pure _
    | list xs | tuple xs =>
      cases top
      exact (items xs fun _ h => h).map (.pure _)
    | pair a b =>
      cases top
      exact (items [a, b] fun _ h => h).map (.pure _)
    | set xs | frozenSet xs =>
      cases top
      refine (items xs fun _ h => h).map ?_
      rw [membersDigest_map]
      exact .pure _
    | emptyContext | table =>
      cases top
      rw [all_table]
      refine (entries rfl).map ?_
      rw [entriesDigest_map, tagged_eq_hash]
      exact .pure _
    | object owner fs =>
      cases top
      have fields := entries (show Node.table (.dataclass owner.dotted) _ = .table _ _ from rfl)
      rw [List.mapM_map] at fields
      rw [all_table, Node.isNamed, ← isEncodable_dataclass, Bool.and_comm]
      refine fields.bind ((checkName_gives _).map ?_)
      rw [entriesDigest_map, tagged_dataclass]
      exact .pure _
    | _ => cases top

section Fingerprints

variable (cells : Cells) {n : Nat} {v : Value} (structured : isStructured n v = true)

include structured

/-- A structured value whose names can be encoded has the hash of its message for a fingerprint. -/
theorem fingerprint_of_isNamed (named : isNamed n v = true) :
    fingerprintWithin n cells v = .ok (summary n v) := by
  have gives := digest_gives cells structured
  rw [named] at gives
  cases gives with
  | result gives => rw [fingerprintWithin, gives []]

/-- One whose names cannot all be encoded has the fault of such a name instead. -/
theorem fingerprint_of_not_isNamed (unnamed : isNamed n v = false) :
    ∃ f, IsNameFault f ∧ fingerprintWithin n cells v = .error f := by
  have gives := digest_gives cells structured
  rw [unnamed] at gives
  cases gives with
  | fault lacking gives => exact ⟨_, lacking, by rw [fingerprintWithin, gives []]⟩

end Fingerprints

end MorphEngine.Fingerprint
