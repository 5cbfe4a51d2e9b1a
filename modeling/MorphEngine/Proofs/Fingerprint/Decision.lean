import Mathlib.Data.List.Perm.Basic
import MorphEngine.Proofs.Fingerprint.Messages

/-!
# Fingerprints decide structural equality

Structurally equal values have the same message and the same names, so the same fingerprint or, where a
name cannot be encoded, none. The other way round, a
message gives back its opening, its atom, and the hashes of its parts, those of collections and
tables up to their order. So values with one fingerprint are structurally equal unless somewhere
inside of them two different messages have the same hash. Nothing is assumed about the hash.
-/

namespace MorphEngine.Fingerprint

/-- An atom is found again in its payload. -/
theorem Atom.payload_injective {a b : Atom} (kinds : a.kind = b.kind)
    (same : a.payload = b.payload) : a = b := by
  cases a with
  | none =>
    cases b <;> cases kinds
    rfl
  | bool x =>
    cases b <;> cases kinds
    next y => cases x <;> cases y <;> first | rfl | cases same
  | member name =>
    cases b <;> cases kinds
    exact congrArg member (Text.bytes_injective same)
  | int n =>
    cases b <;> cases kinds
    exact congrArg int (Text.ofInt_injective (Text.bytes_injective same))
  | real x =>
    cases b <;> cases kinds
    next y => exact congrArg real (HexText.ext (Text.bytes_injective same))
  | complex re im =>
    cases b <;> cases kinds
    next re' im' =>
      have apart (x y : HexText) : (x.text ++ ":" ++ y.text).points =
          x.text.points ++ Text.ofChar ':' :: y.text.points := by
        rw [Text.points_append, Text.points_append, List.append_assoc]
        rfl
      have points := congrArg Text.points (Text.bytes_injective same)
      rw [apart, apart] at points
      obtain ⟨first, second⟩ := split_at_separator re.colonFree re'.colonFree points
      rw [HexText.ext (congrArg Text.mk first), HexText.ext (congrArg Text.mk second)]
  | text t =>
    cases b <;> cases kinds
    exact congrArg text (Text.bytes_injective same)
  | bytes bs =>
    cases b <;> cases kinds
    exact congrArg bytes same
  | buffer bs =>
    cases b <;> cases kinds
    exact congrArg buffer same

section Parts

variable {n : Nat} {v w : Value}

/-! ### Structurally equal values have the same message -/

theorem chunks_eq {f : Value → Digest} {es fs : List (Value × Value)}
    (keys : (es.map (·.1)).map f = (fs.map (·.1)).map f)
    (values : (es.map (·.2)).map f = (fs.map (·.2)).map f) :
    Node.chunks f es = Node.chunks f fs := by
  induction es generalizing fs with
  | nil =>
    cases fs with
    | nil => rfl
    | cons f fs => cases keys
  | cons e es ih =>
    cases fs with
    | nil => cases keys
    | cons f fs =>
      obtain ⟨key, keys⟩ := List.cons.inj keys
      obtain ⟨value, values⟩ := List.cons.inj values
      rw [Node.chunks, List.map_cons, key, value]
      exact congrArg _ (ih keys values)

theorem message_eq_of_structurallyEqual (same : StructurallyEqual v w) :
    message n v = message n w := by
  induction n generalizing v w with
  | zero => rfl
  | succ n ih =>
    have lists {xs ys : List Value} (items : List.Forall₂ StructurallyEqual xs ys) :
        xs.map (summary n) = ys.map (summary n) := by
      induction items with
      | nil => rfl
      | cons first _ rest => rw [List.map_cons, List.map_cons, rest, summary, summary, ih first]
    cases same with
    | atom hv hw => rw [message_succ hv, message_succ hw]
    | sequence hv hw items =>
      rw [message_succ hv, message_succ hw, Node.body, Node.body, lists items]
      rfl
    | @collection _ _ kind xs xs' ys hv hw order members =>
      have parts : sorted (xs.map fun x => (summary n x).bytes) =
          sorted (ys.map fun y => (summary n y).bytes) := by
        have chunks := congrArg (List.map (·.bytes)) (lists members)
        rw [List.map_map, List.map_map] at chunks
        exact (sorted_eq_of_perm (order.map _)).trans (congrArg sorted chunks)
      rw [message_succ hv, message_succ hw, Node.body, Node.body, parts]
      rfl
    | @table _ _ kind es es' fs hv hw order keys values =>
      have parts : sorted (Node.chunks (summary n) es) = sorted (Node.chunks (summary n) fs) :=
        (sorted_eq_of_perm (order.map _)).trans
          (congrArg sorted (chunks_eq (lists keys) (lists values)))
      rw [message_succ hv, message_succ hw]
      cases kind <;> rw [Node.body, Node.body, parts] <;> rfl

/-- Structurally equal values have the same names. -/
theorem isNamed_eq_of_structurallyEqual (same : StructurallyEqual v w) :
    isNamed n v = isNamed n w := by
  induction n generalizing v w with
  | zero => rfl
  | succ n ih =>
    have lists {xs ys : List Value} (items : List.Forall₂ StructurallyEqual xs ys) :
        xs.all (isNamed n) = ys.all (isNamed n) := by
      induction items with
      | nil => rfl
      | cons first _ rest => rw [List.all_cons, List.all_cons, rest, ih first]
    cases same with
    | atom hv hw => rw [isNamed_succ hv, isNamed_succ hw]
    | sequence hv hw items =>
      rw [isNamed_succ hv, isNamed_succ hw, Node.children, Node.children, lists items]
      rfl
    | collection hv hw order members =>
      rw [isNamed_succ hv, isNamed_succ hw, Node.children, Node.children, order.all_eq,
        lists members]
      rfl
    | @table _ _ kind es es' fs hv hw order keys values =>
      have sides (es : List (Value × Value)) : (Node.table kind es).children.all (isNamed n) =
          ((es.map (·.1)).all (isNamed n) && (es.map (·.2)).all (isNamed n)) := by
        rw [Bool.eq_iff_iff, all_table]
        simp only [Bool.and_eq_true, List.all_eq_true, List.forall_mem_map, forall_and]
      have entries : (Node.table kind es).children.all (isNamed n) =
          (Node.table kind fs).children.all (isNamed n) := by
        rw [sides, sides, (order.map _).all_eq, (order.map _).all_eq, lists keys, lists values]
      rw [isNamed_succ hv, isNamed_succ hw, entries]
      cases kind <;> rfl

/-! ### Values with the same message -/

/-- A list whose images are those of another one in another order is that list in another order. -/
theorem exists_perm_of_map_perm {α β : Type} {f : α → β} {xs ys : List α}
    (perm : (xs.map f).Perm (ys.map f)) : ∃ xs', xs.Perm xs' ∧ xs'.map f = ys.map f := by
  have composed : Relation.Comp (· = List.map f ·) List.Perm (ys.map f) xs := by
    rw [List.eq_map_comp_perm]
    exact perm.symm
  obtain ⟨xs', images, order⟩ := composed
  exact ⟨xs', order.symm, images.symm⟩

/-- Keys and values are found again in digests that stand side by side. -/
theorem summaries_eq_of_chunks_eq {f : Value → Digest} {es fs : List (Value × Value)}
    (same : Node.chunks f es = Node.chunks f fs) :
    (es.map (·.1)).map f = (fs.map (·.1)).map f ∧ (es.map (·.2)).map f = (fs.map (·.2)).map f := by
  induction es generalizing fs with
  | nil =>
    cases fs with
    | nil => exact ⟨rfl, rfl⟩
    | cons e' fs => cases same
  | cons e es ih =>
    cases fs with
    | nil => cases same
    | cons e' fs =>
      obtain ⟨first, rest⟩ := List.cons.inj same
      obtain ⟨key, value⟩ := List.append_inj first ((f e.1).size_eq.trans (f e'.1).size_eq.symm)
      obtain ⟨keys, values⟩ := ih rest
      simp only [List.map_cons, Digest.bytes_injective key, Digest.bytes_injective value, keys,
        values, and_self]

theorem digest_size {f : Value → Digest} {xs : List Value} :
    ∀ c ∈ xs.map (fun x => (f x).bytes), c.length = 16 := by
  intro c hc
  obtain ⟨x, _, rfl⟩ := List.mem_map.mp hc
  exact (f x).size_eq

theorem chunk_size {f : Value → Digest} {es : List (Value × Value)} :
    ∀ c ∈ Node.chunks f es, c.length = 32 := by
  intro c hc
  obtain ⟨e, _, rfl⟩ := List.mem_map.mp hc
  rw [List.length_append, (f e.1).size_eq, (f e.2).size_eq]

/-- Lists of values with the same digests are equal item by item, or two items collide. -/
theorem forall₂_or_collide {xs ys : List Value}
    (each : ∀ x ∈ xs, ∀ y ∈ ys, summary n x = summary n y → StructurallyEqual x y ∨ Collide n x y)
    (same : xs.map (summary n) = ys.map (summary n)) :
    List.Forall₂ StructurallyEqual xs ys ∨ ∃ x ∈ xs, ∃ y ∈ ys, Collide n x y := by
  induction xs generalizing ys with
  | nil =>
    cases ys with
    | nil => exact Or.inl .nil
    | cons y ys => cases same
  | cons x xs ih =>
    cases ys with
    | nil => cases same
    | cons y ys =>
      obtain ⟨first, rest⟩ := List.cons.inj same
      have later := ih (fun x hx y hy => each x (List.mem_cons_of_mem _ hx) y
        (List.mem_cons_of_mem _ hy)) rest
      rcases each x List.mem_cons_self y List.mem_cons_self first with equal | collide
      · rcases later with equals | ⟨x', hx', y', hy', collide⟩
        · exact Or.inl (.cons equal equals)
        · exact Or.inr ⟨x', List.mem_cons_of_mem _ hx', y', List.mem_cons_of_mem _ hy', collide⟩
      · exact Or.inr ⟨x, List.mem_cons_self, y, List.mem_cons_self, collide⟩

/-- Sequences with the same digests of items are equal, or two items collide. -/
theorem sequence_or_collide {kind : SequenceKind} {xs ys : List Value}
    (hv : node? v = some (.sequence kind xs)) (hw : node? w = some (.sequence kind ys))
    (each : ∀ x ∈ xs, ∀ y ∈ ys, summary n x = summary n y → StructurallyEqual x y ∨ Collide n x y)
    (same : joined (xs.map (summary n)) = joined (ys.map (summary n))) :
    StructurallyEqual v w ∨ Collide (n + 1) v w := by
  have digests : xs.map (summary n) = ys.map (summary n) :=
    flatMap_inj_of_size (by decide) Digest.size_eq (fun _ _ => Digest.bytes_injective) same
  rcases forall₂_or_collide each digests with items | ⟨x, hx, y, hy, collide⟩
  · exact Or.inl (.sequence hv hw items)
  · exact Or.inr (collide.of_children hv hw hx hy)

/-- Collections with the same digests of members are equal up to order, or two members collide. -/
theorem collection_or_collide {kind : CollectionKind} {xs ys : List Value}
    (hv : node? v = some (.collection kind xs)) (hw : node? w = some (.collection kind ys))
    (each : ∀ x ∈ xs, ∀ y ∈ ys, summary n x = summary n y → StructurallyEqual x y ∨ Collide n x y)
    (same : sorted (xs.map fun x => (summary n x).bytes) =
      sorted (ys.map fun y => (summary n y).bytes)) :
    StructurallyEqual v w ∨ Collide (n + 1) v w := by
  obtain ⟨xs', order, chunks⟩ :=
    exists_perm_of_map_perm (perm_of_sorted_eq (by decide) digest_size digest_size same)
  have bytes : (xs'.map (summary n)).map (·.bytes) = (ys.map (summary n)).map (·.bytes) := by
    rw [List.map_map, List.map_map]
    exact chunks
  have digests : xs'.map (summary n) = ys.map (summary n) :=
    (List.map_inj_right fun _ _ => Digest.bytes_injective).mp bytes
  rcases forall₂_or_collide (fun x hx => each x (order.mem_iff.mpr hx)) digests
    with members | ⟨x, hx, y, hy, collide⟩
  · exact Or.inl (.collection hv hw order members)
  · exact Or.inr (collide.of_children hv hw (order.mem_iff.mpr hx) hy)

/-- Tables with the same digests of entries are equal up to order, or two parts collide. -/
theorem table_or_collide {kind : TableKind} {es fs : List (Value × Value)}
    (hv : node? v = some (.table kind es)) (hw : node? w = some (.table kind fs))
    (each : ∀ x ∈ (Node.table kind es).children, ∀ y ∈ (Node.table kind fs).children,
      summary n x = summary n y → StructurallyEqual x y ∨ Collide n x y)
    (same : sorted (Node.chunks (summary n) es) = sorted (Node.chunks (summary n) fs)) :
    StructurallyEqual v w ∨ Collide (n + 1) v w := by
  obtain ⟨es', order, chunks⟩ :=
    exists_perm_of_map_perm (perm_of_sorted_eq (by decide) chunk_size chunk_size same)
  obtain ⟨keys, values⟩ := summaries_eq_of_chunks_eq chunks
  have key {x : Value} (hx : x ∈ es'.map (·.1)) : x ∈ (Node.table kind es).children :=
    Node.key_mem_children ((order.map _).mem_iff.mpr hx)
  have value {x : Value} (hx : x ∈ es'.map (·.2)) : x ∈ (Node.table kind es).children :=
    Node.value_mem_children ((order.map _).mem_iff.mpr hx)
  rcases forall₂_or_collide (fun x hx y hy => each x (key hx) y (Node.key_mem_children hy)) keys
    with keysEqual | ⟨x, hx, y, hy, collide⟩
  · rcases forall₂_or_collide
      (fun x hx y hy => each x (value hx) y (Node.value_mem_children hy)) values
      with valuesEqual | ⟨x, hx, y, hy, collide⟩
    · exact Or.inl (.table hv hw order keysEqual valuesEqual)
    · exact Or.inr (collide.of_children hv hw (value hx) (Node.value_mem_children hy))
  · exact Or.inr (collide.of_children hv hw (key hx) (Node.key_mem_children hy))

theorem zero_not_mem_name {name : Text} {es : List (Value × Value)}
    (regular : (Node.table (.dataclass name) es).isRegular = true) : 0 ∉ name.bytes := by
  have free : 0 ∉ name.points := by simpa [Node.isRegular] using regular
  exact Text.zero_not_mem_bytes free

/-- Values with the same digest are structurally equal, or two different messages inside of them
have the same hash. -/
theorem structurallyEqual_or_collide (hv : isStructured n v = true) (hw : isStructured n w = true)
    (same : summary n v = summary n w) : StructurallyEqual v w ∨ Collide n v w := by
  induction n generalizing v w with
  | zero => cases hv
  | succ n ih =>
    by_cases messages : message (n + 1) v = message (n + 1) w
    case neg =>
      exact Or.inr ⟨_, message_mem_hashed hv, _, message_mem_hashed hw, messages, same⟩
    obtain ⟨p, topV, regularV, partsV⟩ := exists_node hv
    obtain ⟨q, topW, regularW, partsW⟩ := exists_node hw
    rw [message_succ topV, message_succ topW] at messages
    obtain ⟨openings, bodies⟩ := Opening.append_inj messages
    have each : ∀ x ∈ p.children, ∀ y ∈ q.children, summary n x = summary n y →
        StructurallyEqual x y ∨ Collide n x y :=
      fun x hx y hy => ih (partsV x hx) (partsW y hy)
    cases p with
    | atom a =>
      cases q with
      | atom b =>
        have atoms : a = b := Atom.payload_injective (Opening.atom.inj openings) bodies
        exact Or.inl (.atom topV (atoms ▸ topW))
      | table kind fs => cases kind <;> cases openings
      | _ => cases openings
    | sequence kind xs =>
      cases q with
      | sequence kind' ys =>
        cases openings
        exact sequence_or_collide topV topW each bodies
      | table kind fs => cases kind <;> cases openings
      | _ => cases openings
    | collection kind xs =>
      cases q with
      | collection kind' ys =>
        cases openings
        exact collection_or_collide topV topW each bodies
      | table kind fs => cases kind <;> cases openings
      | _ => cases openings
    | table kind es =>
      cases q with
      | table kind' fs =>
        cases kind with
        | dict =>
          cases kind' with
          | dict => exact table_or_collide topV topW each bodies
          | dataclass name' => cases openings
        | dataclass name =>
          cases kind' with
          | dict => cases openings
          | dataclass name' =>
            obtain ⟨names, entries⟩ :=
              split_at_separator (zero_not_mem_name regularV) (zero_not_mem_name regularW) bodies
            cases Text.bytes_injective names
            exact table_or_collide topV topW each entries
      | _ => cases kind <;> cases openings

end Parts

/-! ### Fingerprints -/

/-- Of structured values, within whatever nesting can be walked. They have a fingerprint just when all
names of classes and members in them can be encoded, and otherwise the fault of such a name.
Structurally equal values have the same fingerprint, if any, and values with the same fingerprint are
structurally equal, unless two different messages on the way have the same hash. -/
theorem fingerprint_decides_structurallyEqual (cells : Cells) {levels : Nat} {v w : Value}
    (hv : isStructured levels v = true) (hw : isStructured levels w = true) :
    (isNamed levels v = true → ∃ d, fingerprintWithin levels cells v = .ok d) ∧
      (isNamed levels v = false →
        ∃ f, IsNameFault f ∧ fingerprintWithin levels cells v = .error f) ∧
      (StructurallyEqual v w → (fingerprintWithin levels cells v).toOption =
        (fingerprintWithin levels cells w).toOption) ∧
      ∀ d e, fingerprintWithin levels cells v = .ok d → fingerprintWithin levels cells w = .ok e →
        d.hex = e.hex → StructurallyEqual v w ∨ Collide levels v w := by
  have named {u : Value} (hu : isStructured levels u = true) {d : Digest}
      (found : fingerprintWithin levels cells u = .ok d) : d = summary levels u := by
    cases names : isNamed levels u with
    | true => exact Except.ok.inj (found.symm.trans (fingerprint_of_isNamed cells hu names))
    | false =>
      obtain ⟨f, _, fails⟩ := fingerprint_of_not_isNamed cells hu names
      cases fails.symm.trans found
  refine ⟨fun names => ⟨_, fingerprint_of_isNamed cells hv names⟩,
    fingerprint_of_not_isNamed cells hv, fun equal => ?_, fun d e first second same => ?_⟩
  · have names := isNamed_eq_of_structurallyEqual (n := levels) equal
    have messages : summary levels v = summary levels w :=
      congrArg Blake2b.hash (message_eq_of_structurallyEqual equal)
    cases first : isNamed levels v with
    | true =>
      rw [fingerprint_of_isNamed cells hv first,
        fingerprint_of_isNamed cells hw (names.symm.trans first), messages]
    | false =>
      obtain ⟨f, _, fails⟩ := fingerprint_of_not_isNamed cells hv first
      obtain ⟨g, _, fails'⟩ := fingerprint_of_not_isNamed cells hw (names.symm.trans first)
      rw [fails, fails']
      rfl
  · rw [named hv first, named hw second] at same
    exact structurallyEqual_or_collide hv hw (Digest.hex_injective same)

/-- A table that holds a set, and the same with entries and members in another order. -/
def sampleTables : Value × Value :=
  (.table [(.text "kind", .int 1), (.text "members", .set [.int 2, .bool true])],
    .table [(.text "members", .set [.bool true, .int 2]), (.text "kind", .int 1)])

/-- The order of entries and members cannot be seen in a fingerprint. -/
theorem fingerprint_sampleTables :
    ∃ d, fingerprint [] sampleTables.1 = .ok d ∧ fingerprint [] sampleTables.2 = .ok d := by
  have first : isStructured depthLimit sampleTables.1 = true := by decide +kernel
  have second : isStructured depthLimit sampleTables.2 = true := by decide +kernel
  obtain ⟨found, _, same, _⟩ := fingerprint_decides_structurallyEqual [] first second
  obtain ⟨d, first⟩ := found (by decide +kernel)
  have atom {v : Value} {a : Atom} (hv : node? v = some (.atom a)) : StructurallyEqual v v :=
    .atom hv hv
  have members : StructurallyEqual (.set [.int 2, .bool true]) (.set [.bool true, .int 2]) :=
    .collection rfl rfl (.swap _ _ _) (.cons (atom rfl) (.cons (atom rfl) .nil))
  have tables : StructurallyEqual sampleTables.1 sampleTables.2 :=
    .table rfl rfl (.swap _ _ _) (.cons (atom rfl) (.cons (atom rfl) .nil))
      (.cons members (.cons (atom rfl) .nil))
  have outcomes := same tables
  rw [first] at outcomes
  refine ⟨d, first, ?_⟩
  rcases second : fingerprintWithin depthLimit [] sampleTables.2 with f | e
  · rw [second] at outcomes
    cases outcomes
  · rw [second] at outcomes
    cases outcomes
    exact second

end MorphEngine.Fingerprint
