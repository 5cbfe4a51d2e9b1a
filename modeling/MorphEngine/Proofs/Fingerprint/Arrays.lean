import MorphEngine.Proofs.Fingerprint.Layers

/-!
# Arrays by their types, shapes and bytes

An array is hashed behind the code of its element type and its shape, with bars between the three. A
code has a bar at the front at most and a shape has none, so all three are found again in what is
hashed, and nothing else is hashed behind the same opening. A code does not tell everything about a
type, however: that of a record tells its size alone. Arrays of records with other fields, and of
blanks, therefore pass for each other when the sizes agree.
-/

namespace MorphEngine

/-! ### Codes of element types -/

namespace ElementType

/-- A type as far as its code tells: a record is a blank, and single bytes have no order. -/
def written : ElementType → ElementType
  | .signed n big => .signed n (big && decide (1 < n))
  | .unsigned n big => .unsigned n (big && decide (1 < n))
  | .floating n big => .floating n (big && decide (1 < n))
  | .complex n big => .complex n (big && decide (1 < n))
  | .record fields => .blank (totalSize fields)
  | t => t

/-- The unit of a time is written without a bar. -/
def IsRegular : ElementType → Prop
  | .instant unit _ | .duration unit _ => Text.ofChar '|' ∉ unit.points
  | _ => True

def codeMark : ElementType → Text
  | .signed n big | .unsigned n big | .floating n big | .complex n big => orderMark n big
  | .text _ big => orderMark 4 big
  | .instant _ big | .duration _ big => orderMark 8 big
  | .flag | .bytes _ | .blank _ | .record _ => "|"

def codeLetter : ElementType → Char
  | .flag => 'b'
  | .signed _ _ => 'i'
  | .unsigned _ _ => 'u'
  | .floating _ _ => 'f'
  | .complex _ _ => 'c'
  | .bytes _ => 'S'
  | .text _ _ => 'U'
  | .blank _ | .record _ => 'V'
  | .instant _ _ => 'M'
  | .duration _ _ => 'm'

/-- What stands behind the letter of a code: a number in most of them. -/
def codeRest : ElementType → Text
  | .flag => "1"
  | .signed n _ | .unsigned n _ | .floating n _ | .complex n _ | .bytes n | .text n _ | .blank n =>
    Text.ofNat n
  | .instant unit _ | .duration unit _ => "8" ++ unit
  | .record fields => Text.ofNat (totalSize fields)

/-- A code without its mark. -/
def codeBody (t : ElementType) : Text := ⟨Text.ofChar t.codeLetter :: t.codeRest.points⟩

theorem code_eq (t : ElementType) : t.code = t.codeMark ++ t.codeBody := by
  have points : t.code.points = t.codeMark.points ++ t.codeBody.points := by
    cases t <;> simp only [code, codeMark, codeBody, codeLetter, codeRest, Text.points_append,
      List.append_assoc] <;> rfl
  exact congrArg Text.mk points

theorem orderMark_cases (n : Nat) (big : Bool) :
    orderMark n big = "|" ∨ orderMark n big = ">" ∨ orderMark n big = "<" := by
  unfold orderMark
  split
  · exact Or.inl rfl
  · cases big
    · exact Or.inr (Or.inr rfl)
    · exact Or.inr (Or.inl rfl)

theorem codeMark_cases (t : ElementType) :
    t.codeMark = "|" ∨ t.codeMark = ">" ∨ t.codeMark = "<" := by
  cases t <;> first | exact orderMark_cases _ _ | exact Or.inl rfl

theorem code_written (t : ElementType) : t.written.code = t.code := by
  have sameMark (n : Nat) (big : Bool) :
      orderMark n (big && decide (1 < n)) = orderMark n big := by
    unfold orderMark
    by_cases single : n ≤ 1
    · rw [if_pos single, if_pos single]
    · rw [decide_eq_true (by omega : 1 < n), Bool.and_true]
  cases t with
  | signed n big | unsigned n big | floating n big | complex n big =>
    simp only [written, code, sameMark]
  | _ => rfl

theorem big_of_orderMark {n : Nat} {big big' : Bool} (same : orderMark n big = orderMark n big') :
    (big && decide (1 < n)) = (big' && decide (1 < n)) := by
  by_cases single : n ≤ 1
  · rw [decide_eq_false (by omega), Bool.and_false, Bool.and_false]
  · simp only [orderMark, if_neg single] at same
    cases big <;> cases big' <;> first | rfl | cases same

/-- A code tells of a type what is written of it, and nothing else. -/
theorem code_eq_iff (s t : ElementType) : s.code = t.code ↔ s.written = t.written := by
  constructor
  · intro same
    have points := congrArg Text.points same
    rw [code_eq, code_eq, Text.points_append, Text.points_append] at points
    have sizes : s.codeMark.points.length = t.codeMark.points.length := by
      rcases codeMark_cases s with h | h | h <;> rcases codeMark_cases t with h' | h' | h' <;>
        rw [h, h'] <;> rfl
    obtain ⟨marks, bodies⟩ := List.append_inj points sizes
    obtain ⟨letters, rests⟩ := List.cons.inj bodies
    have mark : s.codeMark = t.codeMark := congrArg Text.mk marks
    have letter : s.codeLetter = t.codeLetter := Text.ofChar_injective letters
    have rest : s.codeRest = t.codeRest := congrArg Text.mk rests
    have wide {n : Nat} {big big' : Bool} (large : 1 < n)
        (same : orderMark n big = orderMark n big') : big = big' := by
      have := big_of_orderMark same
      rwa [decide_eq_true large, Bool.and_true, Bool.and_true] at this
    have units {u u' : Text} (same : "8" ++ u = "8" ++ u') : u = u' :=
      congrArg Text.mk (List.append_cancel_left (congrArg Text.points same))
    cases s <;> cases t <;> try exact absurd letter (by simp only [codeLetter]; decide)
    case flag.flag => rfl
    case signed.signed | unsigned.unsigned | floating.floating | complex.complex =>
      cases Text.ofNat_injective rest
      rw [written, written, big_of_orderMark mark]
    case bytes.bytes => exact congrArg bytes (Text.ofNat_injective rest)
    case blank.blank | blank.record | record.blank | record.record =>
      exact congrArg blank (Text.ofNat_injective rest)
    case text.text =>
      rw [Text.ofNat_injective rest, wide (by decide) mark]
    case instant.instant | duration.duration =>
      rw [units rest, wide (by decide) mark]
  · intro same
    rw [← code_written s, ← code_written t, same]

theorem bar_not_mem_codeRest {t : ElementType} (regular : t.IsRegular) :
    Text.ofChar '|' ∉ t.codeRest.points := by
  have number (n : Nat) : Text.ofChar '|' ∉ (Text.ofNat n).points :=
    Text.not_mem_ofNat (by decide) n
  cases t with
  | flag => decide
  | instant unit | duration unit =>
    intro among
    rcases List.mem_append.mp among with first | rest
    · exact absurd first (by decide)
    · exact regular rest
  | _ => exact number _

theorem bar_not_mem_codeBody {t : ElementType} (regular : t.IsRegular) :
    Text.ofChar '|' ∉ t.codeBody.points := by
  rw [codeBody, List.mem_cons, not_or]
  refine ⟨?_, bar_not_mem_codeRest regular⟩
  cases t <;>
  · rw [codeLetter]
    decide

theorem codeMark_size (t : ElementType) : t.codeMark.bytes.length = 1 := by
  rcases codeMark_cases t with h | h | h <;>
  · rw [h]
    decide

end ElementType

/-! ### Shapes -/

namespace Fingerprint

/-- What stands between the parentheses of a shape. -/
def shapeInside : List Nat → Text
  | [n] => Text.ofNat n ++ ","
  | ns => Text.join ", " (ns.map Text.ofNat)

theorem shapeText_points (ns : List Nat) :
    (shapeText ns).points =
      Text.ofChar '(' :: ((shapeInside ns).points ++ [Text.ofChar ')']) := by
  match ns with
  | [n] =>
    simp only [shapeText, shapeInside, Text.points_append, List.append_assoc]
    rfl
  | [] | _ :: _ :: _ => rfl

section Numbers

variable (n m : Nat) (rest : List Nat)

/-- Several numbers one after the other. -/
def several : Text := Text.join ", " ((n :: m :: rest).map Text.ofNat)

theorem several_points : (several n m rest).points = (Text.ofNat n).points ++
    Text.ofChar ',' :: Text.ofChar ' ' :: (Text.join ", " ((m :: rest).map Text.ofNat)).points := by
  simp only [several, List.map_cons, Text.join, Text.points_append, List.append_assoc]
  rfl

end Numbers

theorem not_mem_join {c : Char} (other : c.isDigit = false) (noComma : c ≠ ',') (noBlank : c ≠ ' ')
    (ns : List Nat) : Text.ofChar c ∉ (Text.join ", " (ns.map Text.ofNat)).points := by
  induction ns with
  | nil => exact List.not_mem_nil
  | cons n ns ih =>
    cases ns with
    | nil => exact Text.not_mem_ofNat other n
    | cons m rest =>
      intro among
      rw [← several, several_points, List.mem_append, List.mem_cons, List.mem_cons] at among
      rcases among with first | comma | blank | later
      · exact Text.not_mem_ofNat other n first
      · exact noComma (Text.ofChar_injective comma)
      · exact noBlank (Text.ofChar_injective blank)
      · exact ih later

theorem join_injective {ms ns : List Nat}
    (same : (Text.join ", " (ms.map Text.ofNat)).points =
      (Text.join ", " (ns.map Text.ofNat)).points) : ms = ns := by
  have comma (n : Nat) : Text.ofChar ',' ∉ (Text.ofNat n).points := Text.not_mem_ofNat (by decide) n
  have single {n m m' : Nat} {rest : List Nat}
      (same : (Text.ofNat n).points = (several m m' rest).points) : False := by
    apply comma n
    rw [same, several_points]
    exact List.mem_append_right _ List.mem_cons_self
  have filled {m m' : Nat} {rest : List Nat} (same : [] = (several m m' rest).points) : False := by
    rw [several_points] at same
    exact List.append_ne_nil_of_right_ne_nil _ (List.cons_ne_nil _ _) same.symm
  induction ms generalizing ns with
  | nil =>
    match ns with
    | [] => rfl
    | [n] => exact absurd same.symm (Text.ofNat_ne_empty n)
    | _ :: _ :: _ => exact (filled same).elim
  | cons m ms ih =>
    match ms, ns with
    | [], [] => exact absurd same (Text.ofNat_ne_empty m)
    | [], [n] => rw [Text.ofNat_injective (congrArg Text.mk same)]
    | [], _ :: _ :: _ => exact (single same).elim
    | _ :: _, [] => exact (filled same.symm).elim
    | _ :: _, [n] => exact (single same.symm).elim
    | m' :: ms, n :: n' :: ns =>
      rw [← several, ← several, several_points, several_points] at same
      obtain ⟨first, later⟩ := split_at_separator (comma m) (comma n) same
      rw [Text.ofNat_injective (congrArg Text.mk first), ih (List.cons.inj later).2]

theorem shapeInside_injective {ms ns : List Nat}
    (same : (shapeInside ms).points = (shapeInside ns).points) : ms = ns := by
  have comma (n : Nat) : Text.ofChar ',' ∉ (Text.ofNat n).points := Text.not_mem_ofNat (by decide) n
  have single (n : Nat) :
      (shapeInside [n]).points = (Text.ofNat n).points ++ Text.ofChar ',' :: [] := rfl
  have apart {n m m' : Nat} {rest : List Nat}
      (same : (shapeInside [n]).points = (several m m' rest).points) : False := by
    rw [single, several_points] at same
    obtain ⟨_, later⟩ := split_at_separator (comma n) (comma m) same
    cases later
  have filled {n : Nat} (same : (shapeInside [n]).points = []) : False :=
    List.append_ne_nil_of_right_ne_nil _ (List.cons_ne_nil _ _) same
  match ms, ns with
  | [m], [n] =>
    rw [single, single] at same
    rw [Text.ofNat_injective (congrArg Text.mk (List.append_cancel_right same))]
  | [m], [] => exact (filled same).elim
  | [], [n] => exact (filled same.symm).elim
  | [m], _ :: _ :: _ => exact (apart same).elim
  | _ :: _ :: _, [n] => exact (apart same.symm).elim
  | [], [] => rfl
  | [], _ :: _ :: _ | _ :: _ :: _, [] | _ :: _ :: _, _ :: _ :: _ => exact join_injective same

/-- A shape is found again in its text. -/
theorem shapeText_injective {ms ns : List Nat} (same : shapeText ms = shapeText ns) : ms = ns := by
  have points := congrArg Text.points same
  rw [shapeText_points, shapeText_points] at points
  exact shapeInside_injective (List.append_cancel_right (List.cons.inj points).2)

theorem bar_not_mem_shapeText (ns : List Nat) : Text.ofChar '|' ∉ (shapeText ns).points := by
  have numbers := not_mem_join (c := '|') (by decide) (by decide) (by decide)
  have inside : Text.ofChar '|' ∉ (shapeInside ns).points := by
    match ns with
    | [n] =>
      intro among
      rcases List.mem_append.mp among with first | rest
      · exact Text.not_mem_ofNat (by decide) n first
      · exact absurd rest (by decide)
    | [] => exact numbers []
    | n :: m :: rest => exact numbers (n :: m :: rest)
  rw [shapeText_points, List.mem_cons, List.mem_append, List.mem_singleton, not_or, not_or]
  exact ⟨by decide, inside, by decide⟩

/-! ### What is hashed of an array -/

theorem header_bytes (t : ElementType) (shape : Text) (bs : List UInt8) :
    (t.code ++ "|" ++ shape ++ "|").bytes ++ bs =
      t.codeMark.bytes ++ (t.codeBody.bytes ++ 124 :: (shape.bytes ++ 124 :: bs)) := by
  have bar : ("|" : Text).bytes = [124] := by decide
  simp only [t.code_eq, Text.bytes_append, bar, List.append_assoc, List.cons_append,
    List.nil_append]

/-- What a code tells of a type, the shape, and the bytes of an array are found again in what is
hashed. -/
theorem arrayMessage_inj {s t : ElementType} (hs : s.IsRegular) (ht : t.IsRegular)
    {shape shape' : List Nat} {bs bs' : List UInt8} :
    arrayMessage s shape bs = arrayMessage t shape' bs' ↔
      s.written = t.written ∧ shape = shape' ∧ bs = bs' := by
  have barFree {u : Text} (free : Text.ofChar '|' ∉ u.points) : 124 ∉ u.bytes :=
    Text.ascii_not_mem_bytes (a := Text.ofChar '|') (by decide) free
  constructor
  · intro same
    have payloads := List.append_cancel_left same
    rw [header_bytes, header_bytes] at payloads
    obtain ⟨marks, rest⟩ := List.append_inj payloads (s.codeMark_size.trans t.codeMark_size.symm)
    obtain ⟨bodies, rest⟩ := split_at_separator
      (barFree (ElementType.bar_not_mem_codeBody hs)) (barFree (ElementType.bar_not_mem_codeBody ht))
      rest
    obtain ⟨shapes, bytes⟩ := split_at_separator
      (barFree (bar_not_mem_shapeText shape)) (barFree (bar_not_mem_shapeText shape')) rest
    refine ⟨(ElementType.code_eq_iff s t).mp ?_, shapeText_injective (Text.bytes_injective shapes),
      bytes⟩
    rw [ElementType.code_eq, ElementType.code_eq, Text.bytes_injective marks,
      Text.bytes_injective bodies]
  · rintro ⟨types, rfl, rfl⟩
    rw [arrayMessage, arrayMessage, (ElementType.code_eq_iff s t).mpr types]

/-! ### What is hashed of everything else -/

/-- What the messages of values other than arrays begin with. Byte strings, lists, tuples and sets are
tagged by the names of their classes: of those of the language and of the array library, and of `Pair`.
A program can derive other classes from these under any name, that of arrays included; values of such
classes are not among those told apart here. -/
def otherOpenings : List (List UInt8) :=
  (["none", "bool", "enum", "int", "float", "complex", "str", "bytes", "bytearray", "bytes_", "set",
    "frozenset", "dict"] : List Text).map Opening.bytes.closed ++
    (["list", "tuple", "Pair", "dataclass:", "pickle:", "ndarray-object"] : List Text).map (·.bytes)

theorem arrayMessage_ne {o s : List UInt8} (other : o ∈ otherOpenings) (start : o <+: s)
    (type : ElementType) (shape : List Nat) (bs : List UInt8) : s ≠ arrayMessage type shape bs := by
  have apart : ∀ o ∈ otherOpenings, o.isPrefixOf (Opening.bytes.closed "ndarray") = false ∧
      (Opening.bytes.closed "ndarray").isPrefixOf o = false := by
    decide +kernel
  obtain ⟨before, behind⟩ := apart o other
  rintro rfl
  rcases List.prefix_or_prefix_of_prefix start ⟨_, rfl⟩ with h | h
  · rw [List.isPrefixOf_iff_prefix.mpr h] at before
    cases before
  · rw [List.isPrefixOf_iff_prefix.mpr h] at behind
    cases behind

namespace Layer

/-- A layer other than that of an array. -/
inductive IsOther : Layer → Prop
  | whole {message o : List UInt8} (known : o ∈ otherOpenings) (start : o <+: message) :
      IsOther (.whole message)
  | parts {xs : List Value} {message : Message} {o : List UInt8} (known : o ∈ otherOpenings)
      (start : ∀ ds s, message ds = .ok s → o <+: s) : IsOther (.parts xs message)
  | through {u : Value} {p : Node} (structured : node? u = some p) : IsOther (.through u)
  | ends {o : Obstacle} : IsOther (.ends o)

theorem isOther_closed {tag : Text} {payload : List UInt8}
    (known : Opening.bytes.closed tag ∈ otherOpenings) : (whole (closed tag payload)).IsOther :=
  .whole known (List.prefix_append _ _)

theorem isOther_pickle (name : Text) (payload : List UInt8) :
    (whole (closed ("pickle:" ++ name) payload)).IsOther := by
  refine .whole (o := ("pickle:" : Text).bytes) (by decide) ?_
  simp only [closed, Opening.bytes.closed, Text.bytes_append, List.append_assoc]
  exact List.prefix_append _ _

theorem isOther_ofInt (n : Int) : (ofInt n).IsOther := by
  rw [ofInt]
  split
  · exact .ends
  · exact isOther_closed (by decide)

section Parts

variable {tag : Text} {o : List UInt8} {xs : List Value}

theorem isOther_sequence (known : o ∈ otherOpenings) (start : o <+: tag.bytes) :
    (parts xs (sequenceMessage tag)).IsOther := by
  refine .parts known fun ds s written => ?_
  cases written
  exact start.trans (List.prefix_append _ _)

theorem isOther_collection (known : Opening.bytes.closed tag ∈ otherOpenings) :
    (parts xs (collectionMessage tag)).IsOther := by
  refine .parts known fun ds s written => ?_
  cases written
  exact List.prefix_append _ _

theorem isOther_table (known : Opening.bytes.closed tag ∈ otherOpenings) :
    (parts xs (tableMessage tag)).IsOther := by
  refine .parts known fun ds s written => ?_
  cases written
  exact List.prefix_append _ _

end Parts

theorem isOther_ofName (name : Text) : (ofName name).IsOther := by
  unfold ofName
  split
  · exact isOther_closed (by decide)
  · exact .ends

theorem isOther_ofTime (t : Moment.Item) : (ofTime t).IsOther := by
  cases t with
  | missing => exact isOther_closed (by decide)
  | count n => exact isOther_ofInt n
  | _ => exact isOther_pickle _ _

theorem isOther_ofScalar (s : Scalar) : (ofScalar s).IsOther := by
  unfold ofScalar
  split
  · exact isOther_closed (by decide)
  · exact .through rfl
  · exact isOther_ofTime _
  · next untimed held _ _ =>
    obtain ⟨-, a, atom⟩ := atom_of_item? untimed held
    exact .through atom
  · exact .ends

theorem isOther_ofContent {u : Value}
    (other : ∀ type shape bs order, u ≠ .array type shape bs order) : (ofContent u).IsOther := by
  cases u with
  | array type shape bs order => exact absurd rfl (other type shape bs order)
  | none | bool | real | complex | text | bytes | buffer => exact isOther_closed (by decide)
  | member m => exact isOther_ofName _
  | int n => exact isOther_ofInt n
  | scalar s => exact isOther_ofScalar s
  | builtin b => exact isOther_pickle _ _
  | list | tuple | pair => exact isOther_sequence (by decide) List.prefix_rfl
  | objectArray shape xs =>
    refine isOther_sequence (o := ("ndarray-object" : Text).bytes) (by decide) ?_
    rw [Text.bytes_append]
    exact List.prefix_append _ _
  | set | frozenSet => exact isOther_collection (by decide)
  | emptyContext | table => exact isOther_table (by decide)
  | object owner fs =>
    refine .parts (o := ("dataclass:" : Text).bytes) (by decide) fun ds s written => ?_
    unfold objectMessage at written
    split at written <;> cases written
    simp only [closed, Opening.bytes.closed, Text.bytes_append, List.append_assoc]
    exact List.prefix_append _ _
  | _ => exact .ends

end Layer

/-! ### Fingerprints of arrays -/

/-- The value is an array, behind its cell or mark and however its elements lie. -/
def HoldsArray (cells : Cells) (v : Value) (type : ElementType) (shape : List Nat)
    (bs : List UInt8) : Prop :=
  ∃ order, (v.resolve cells).bare = .array type shape bs order

/-- Different byte strings that are hashed last of two values have the same hash. -/
def WritingsCollide (cells : Cells) (v : Value) (cells' : Cells) (w : Value) : Prop :=
  ∃ s t, Writes cells v s ∧ Writes cells' w t ∧ s ≠ t ∧ Blake2b.hash s = Blake2b.hash t

section Fingerprints

variable {cells cells' : Cells} {v w : Value} {type type' : ElementType} {shape shape' : List Nat}
  {bs bs' : List UInt8}

theorem writes_array (holds : HoldsArray cells v type shape bs) :
    Writes cells v (arrayMessage type shape bs) := by
  obtain ⟨order, content⟩ := holds
  have top : layer cells v = .whole (arrayMessage type shape bs) := by
    rw [layer, content]
    rfl
  rw [Writes, depthLimit, writing, top]
  rfl

theorem writing_of_not_holdsArray (other : ∀ type shape bs, ¬ HoldsArray cells v type shape bs)
    {n : Nat} {active : List Nat} {s : List UInt8}
    (writes : ((writing cells n v).run active).1 = .ok s) : ∃ o ∈ otherOpenings, o <+: s := by
  induction n generalizing v with
  | zero => cases writes
  | succ n ih =>
    have isOther : (layer cells v).IsOther :=
      Layer.isOther_ofContent fun type shape bs order same => other type shape bs ⟨order, same⟩
    rw [writing] at writes
    generalize layer cells v = top at isOther writes
    cases isOther with
    | whole known start =>
      cases writes
      exact ⟨_, known, start⟩
    | @parts xs message o known start =>
      obtain ⟨active', entered⟩ := inside_eq_ok writes
      obtain ⟨ds, -, written⟩ := assembled_eq_ok entered
      exact ⟨o, known, start ds s written⟩
    | @through u p structured =>
      refine ih (fun type shape bs holds => ?_) writes
      obtain ⟨order, content⟩ := holds
      rw [resolve_of_node structured] at content
      rw [node?, content] at structured
      cases structured
    | ends => cases writes

/-- Arrays have fingerprints. Those of two arrays are the same when their bytes, their shapes and
what their codes tell of their types are the same, and only then, unless different byte strings have
the same hash. No other value has the fingerprint of an array, with the same exception: no other
value of the classes that there are here, each of which has a name of its own. -/
theorem array_fingerprint_decides (holds : HoldsArray cells v type shape bs)
    (regular : type.IsRegular) (cells' : Cells) (w : Value) :
    ∃ d, fingerprint cells v = .ok d ∧ ∀ e, fingerprint cells' w = .ok e →
      (∀ type' shape' bs', HoldsArray cells' w type' shape' bs' → type'.IsRegular →
        (type.written = type'.written ∧ shape = shape' ∧ bs = bs' → d.hex = e.hex) ∧
        (d.hex = e.hex → (type.written = type'.written ∧ shape = shape' ∧ bs = bs') ∨
          WritingsCollide cells v cells' w)) ∧
      ((∀ type' shape' bs', ¬ HoldsArray cells' w type' shape' bs') → d.hex = e.hex →
        WritingsCollide cells v cells' w) := by
  have writes := writes_array holds
  refine ⟨_, fingerprint_eq_ok_iff.mpr ⟨_, writes, rfl⟩, fun e he => ?_⟩
  obtain ⟨t, writes', rfl⟩ := fingerprint_eq_ok_iff.mp he
  have collide (apart : arrayMessage type shape bs ≠ t)
      (same : (Blake2b.hash (arrayMessage type shape bs)).hex = (Blake2b.hash t).hex) :
      WritingsCollide cells v cells' w := ⟨_, t, writes, writes', apart, Digest.hex_injective same⟩
  refine ⟨fun type' shape' bs' holds' regular' => ?_, fun other same => ?_⟩
  · cases writes'.unique (writes_array holds')
    refine ⟨fun alike => ?_, fun same => ?_⟩
    · rw [(arrayMessage_inj regular regular').mpr alike]
    · by_cases alike : arrayMessage type shape bs = arrayMessage type' shape' bs'
      · exact Or.inl ((arrayMessage_inj regular regular').mp alike)
      · exact Or.inr (collide alike same)
  · obtain ⟨o, known, start⟩ := writing_of_not_holdsArray other writes'
    exact collide (arrayMessage_ne known start type shape bs).symm same

/-- Three bytes of zero and one of one, as a record of a number and a blank and as one blank. -/
def sampleArrays : Value × Value :=
  (.array (.record [.signed 2 false, .blank 2]) [1] [0, 0, 0, 1] .byRows,
    .array (.blank 4) [1] [0, 0, 0, 1] .byRows)

/-- A record passes for a blank of its size. -/
theorem fingerprint_sampleArrays :
    ∃ d e, fingerprint [] sampleArrays.1 = .ok d ∧ fingerprint [] sampleArrays.2 = .ok e ∧
      d.hex = e.hex := by
  have record : HoldsArray [] sampleArrays.1 (.record [.signed 2 false, .blank 2]) [1] [0, 0, 0, 1] :=
    ⟨.byRows, rfl⟩
  have blank : HoldsArray [] sampleArrays.2 (.blank 4) [1] [0, 0, 0, 1] := ⟨.byRows, rfl⟩
  obtain ⟨e, he, _⟩ := array_fingerprint_decides blank True.intro [] sampleArrays.1
  obtain ⟨d, hd, apart⟩ := array_fingerprint_decides record True.intro [] sampleArrays.2
  refine ⟨d, e, hd, he, ?_⟩
  exact ((apart e he).1 _ _ _ blank True.intro).1 ⟨rfl, rfl, rfl⟩

end Fingerprints

end Fingerprint

end MorphEngine
