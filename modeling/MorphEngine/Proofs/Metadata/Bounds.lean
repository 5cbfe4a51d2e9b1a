import Mathlib.Data.Nat.Digits.Defs
import MorphEngine.Proofs.Metadata.Refusals
import MorphEngine.Settings

/-!
# Numbers within their bounds

Metadata and settings refuse numbers that lie on the wrong side of zero. What is not a number lies
on neither side and is not refused, so a number that is accepted keeps its bound unless it compares
with zero in no way. Settings that are read from an environment fail as badly configured, and not
otherwise.
-/

namespace MorphEngine

open Fusion (bind_eq_ok)

/-- Whether a quantity is in a relation with zero, if it compares with zero at all. -/
def Quantity.Keeps (r : Relation) (q : Quantity) : Prop := q.meetsZero r = true ∨ q.order? = none

/-- The cost is not negative and the time to live is positive, as far as they compare with zero. -/
structure MorphMetadata.IsBounded (m : MorphMetadata) : Prop where
  cost : m.cost.Keeps .atLeast
  ttl : ∀ q, m.cacheTtl = some q → q.Keeps .greater

/-- There is room for an entry, and what entries have for a time to live is positive, as far as it
compares with zero. -/
structure EngineSettings.IsBounded (s : EngineSettings) : Prop where
  maxsize : ∃ n, s.cacheMaxsize.int? = some n ∧ 1 ≤ n
  ttl : s.defaultCacheTtl = .none ∨
    Value.relates [] .greater s.defaultCacheTtl (.int 0) = .ok true ∨
    ∀ r, Value.relates [] r s.defaultCacheTtl (.int 0) = .ok false

/-! ### Metadata -/

namespace Quantity

variable {q : Quantity}

/-- What is not less than zero is at least zero, or compares with it in no way. -/
theorem keeps_atLeast : q.Keeps .atLeast ↔ q.meetsZero .less = false := by
  unfold Keeps meetsZero
  cases q.order? with
  | none => exact iff_of_true (Or.inr rfl) rfl
  | some o => cases o <;> simp [Relation.admits]

theorem keeps_greater : q.Keeps .greater ↔ q.meetsZero .atMost = false := by
  unfold Keeps meetsZero
  cases q.order? with
  | none => exact iff_of_true (Or.inr rfl) rfl
  | some o => cases o <;> simp [Relation.admits]

/-- A double compares with zero in no way only when it is no number. -/
theorem order?_of_real {x : Float} (given : q.given = .real x) :
    q.order? = none ↔ Real.parts x = .nan := by
  obtain ⟨v, measures⟩ := q
  cases given
  have judged : order? ⟨.real x, measures⟩ = (Amount.real (Real.parts x)).order? (.whole 0) := rfl
  rw [judged]
  cases Real.parts x with
  | nan => exact iff_of_true rfl rfl
  | infinite negative => exact iff_of_false nofun nofun
  | finite negative m e => exact iff_of_false nofun nofun

end Quantity

namespace MorphMetadata

variable {m : MorphMetadata} {fs given : Fields}

/-- Metadata are read from fields, so their numbers keep their bounds. -/
theorem isBounded_of_read (made : read fs = .ok m) : m.IsBounded where
  cost := Quantity.keeps_atLeast.mpr (readCost_eq_ok (measures_of_read made).1).2
  ttl q declared :=
    Quantity.keeps_greater.mpr ((readTtl_eq_ok (measures_of_read made).2).2 q declared)

theorem isBounded_of_construct (made : schema.construct given = .ok m) : m.IsBounded := by
  obtain ⟨_, _, made⟩ := bind_eq_ok made
  exact isBounded_of_read made

theorem isBounded_of_coerce {v : Value} {o : Fields} (coerced : coerce v o = .ok m) :
    m.IsBounded := by
  obtain ⟨fs, made⟩ := read_of_coerce coerced
  exact isBounded_of_read made

/-- A cost that is not less than zero is taken. -/
theorem construct_cost {q : Quantity} (kept : q.Keeps .atLeast) :
    schema.construct [("cost", q.given)] = .ok { default with cost := q } := by
  have taken : readCost q.given = .ok q := readCost_given (Quantity.keeps_atLeast.mp kept)
  have read : schema.construct [("cost", q.given)] =
      (readCost q.given >>= fun cost => .ok { default with cost := cost }) := rfl
  rw [read, taken]
  rfl

end MorphMetadata

/-! ### Whole numbers from texts -/

namespace Text

theorem lookup_baseMarks {c : Char} {base : Nat} (marked : baseMarks.lookup c = some base) :
    base ≠ 10 := by
  obtain ⟨before, after, parted, _⟩ := List.lookup_eq_some_iff.mp marked
  have among : (c, base) ∈ baseMarks := by simp [parted]
  have foreign : ∀ m ∈ baseMarks, m.2 ≠ 10 := by decide
  exact foreign _ among

/-- No mark names the decimal base, so decimal digits are read as they stand. -/
theorem digitsInBase_ten (cs : List Char) : digitsInBase 10 cs = (10, cs) := by
  unfold digitsInBase
  cases marked : markedBase? cs with
  | none => rfl
  | some m =>
    obtain ⟨named, rest⟩ := m
    have foreign : named ≠ 10 := by
      unfold markedBase? at marked
      split at marked
      · obtain ⟨base, found, same⟩ := Option.map_eq_some_iff.mp marked
        cases same
        exact lookup_baseMarks found
      · obtain ⟨base, found, same⟩ := Option.map_eq_some_iff.mp marked
        cases same
        exact lookup_baseMarks found
      · cases marked
    exact if_neg (by rintro (h | h); exacts [absurd h (by decide), foreign h.symm])

theorem digits_lt {base : Nat} {cs rest : List Char} {ds : List Nat}
    (led : leadingDigits? base cs = some (ds, rest)) : ∀ d ∈ ds, d < base := by
  fun_induction leadingDigits? base cs generalizing ds with
  | case1 => cases led; exact nofun
  | case2 c cs small ih =>
    obtain ⟨⟨ds', after⟩, led', same⟩ := Option.bind_eq_some_iff.mp led
    dsimp only at same
    split at same
    · cases same
    · cases same
      exact List.forall_mem_cons.mpr ⟨small, ih led'⟩
  | case3 => cases led; exact nofun
  | case4 c cs _ small ih =>
    obtain ⟨⟨ds', after⟩, led', same⟩ := Option.map_eq_some_iff.mp led
    cases same
    exact List.forall_mem_cons.mpr ⟨small, ih led'⟩
  | case5 => cases led; exact nofun

/-- Digits of a base stay below the power of it that has as many. -/
theorem foldl_digits_lt {base limit : Nat} (large : 1 < base) {ds : List Nat}
    (small : ∀ d ∈ ds, d < base) (fits : ds.length ≤ limit) :
    ds.foldl (fun n d => base * n + d) 0 < Nat.pow base limit := by
  have folded : ds.foldl (fun n d => base * n + d) 0 = Nat.ofDigits base ds.reverse := by
    rw [Nat.ofDigits_eq_foldr, List.foldr_reverse]
    congr 1
    funext n d
    exact Nat.add_comm _ _
  calc ds.foldl (fun n d => base * n + d) 0
      = Nat.ofDigits base ds.reverse := folded
    _ < base ^ ds.reverse.length :=
      Nat.ofDigits_lt_base_pow_length large fun d hd => small d (List.mem_reverse.mp hd)
    _ = base ^ ds.length := by rw [List.length_reverse]
    _ ≤ base ^ limit := Nat.pow_le_pow_right (Nat.zero_lt_of_lt large) fits

/-- A whole number that was read from a text is short enough to be written. -/
theorem isUnwritable_of_toInt? {t : Text} {n : Int} (number : t.toInt? = some n) :
    Number.isUnwritable n = false := by
  unfold toInt? readWhole at number
  unfold Number.isUnwritable
  -- The limit is left open, as its power of ten is too large to be computed.
  generalize digitLimit = limit at number ⊢
  simp only [digitsInBase_ten] at number
  split at number
  · cases number
  · next ds rest led =>
    split at number
    · cases number
    · next few =>
      split at number
      · cases number
      · have fits : ds.length ≤ limit := by
          simpa [unlimitedBases] using few
        have size : n.natAbs = ds.foldl (fun n d => 10 * n + d) 0 := by
          obtain rfl := Option.some.inj number
          split <;> simp
        have bound : n.natAbs < Nat.pow 10 limit :=
          size.trans_lt (foldl_digits_lt (by decide) (digits_lt led) fits)
        exact decide_eq_false (Nat.not_le.mpr bound)

end Text

/-! ### Settings -/

namespace Value

theorem resolve_nil (v : Value) : v.resolve [] = v := by
  unfold resolve
  split <;> rfl

/-- A value that answers by its elements is related to zero as these are. -/
theorem relate_elements {v : Value} {s : Scalar} (bare : v.bare = .scalar s)
    (answers : v.answersByElements (.int 0) = true) (r : Relation) :
    relate [] r v (.int 0) = (v.elements [] >>= fun a =>
      a.relate r (fun x y => compareWithin [] (nestingLimit - 1) r x y >>= truth)
        ⟨Option.none, [], .numbers [.whole 0]⟩) := by
  rw [relate, show nestingLimit = nestingLimit - 1 + 1 from rfl, compareWithin]
  cases v with
  | scalar s =>
    simp only [resolve_nil, tupleItems?, compareElements?, answers, if_true, Option.getD_some]
    rfl
  | marked c v =>
    simp only [resolve_nil, tupleItems?, compareElements?, answers, if_true, Option.getD_some]
    rfl
  | _ => cases bare

theorem truth_ofFlags (b : Bool) : (ofFlags [] [b]).truth = .ok b := by
  cases b <;> rfl

/-- One number and zero have one order, whichever way it is asked. -/
theorem relate_order (type : Option ElementType) (x : Amount) :
    ∃ o : Option Ordering, ∀ r holds, Elements.relate r holds ⟨type, [], .numbers [x]⟩
      ⟨Option.none, [], .numbers [.whole 0]⟩ = .ok (ofFlags [] [r.admits o]) :=
  ⟨_, fun _ _ => rfl⟩

/-- A numeric scalar has one number for its element, or one that is not known. -/
theorem elements_scalar {v : Value} {s : Scalar} (bare : v.bare = .scalar s)
    (number : v.number?.isSome = true) :
    (∃ type x, v.elements [] = .ok ⟨type, [], .numbers [x]⟩) ∨
      ∃ type xs, v.elements [] = .ok ⟨type, [], .blanks xs⟩ := by
  rw [number?, bare] at number
  have operand : v.operand? = s.little.amount?.map fun x => ⟨some s.little.type, [], [x]⟩ := by
    rw [operand?, bare]
    dsimp only
    cases s.little.amount? <;> rfl
  rw [elements, operand, resolve_nil, bare]
  cases s.little.amount? with
  | some x => exact Or.inl ⟨_, x, rfl⟩
  | none =>
    right
    obtain ⟨type, bs⟩ := s
    cases type with
    | flag | signed | unsigned | floating => exact ⟨_, _, rfl⟩
    | _ => cases number

theorem answersByElements_scalar {v : Value} {s : Scalar} (bare : v.bare = .scalar s)
    (number : v.number?.isSome = true) : v.answersByElements (.int 0) = true := by
  rw [number?, bare] at number
  rw [answersByElements, bare]
  obtain ⟨type, bs⟩ := s
  cases type with
  | flag | signed | unsigned => rfl
  | floating n little =>
    split <;> first | rfl | simp_all
  | _ => cases number

/-- A member that counts as a number is one of whole numbers. -/
theorem exists_int_of_member {m : Member} {x : Number} (counts : (member m).number? = some x) :
    ∃ owner names name n, m = ⟨⟨owner, true, names⟩, name, .int n⟩ ∧ x = .int n := by
  obtain ⟨⟨owner, isValue, names⟩, name, value⟩ := m
  cases isValue with
  | false => cases counts
  | true =>
    cases value with
    | int n => exact ⟨_, _, _, n, rfl, (Option.some.inj counts).symm⟩
    | text t => cases counts

/-- A number that is no scalar is related to zero as numbers are. -/
theorem relates_number {v : Value} {x : Number} (counts : v.number? = some x)
    (plain : ∀ s, v.bare ≠ .scalar s) (r : Relation) :
    relates [] r v (.int 0) = .ok (r.admits (x.order? .zero)) := by
  cases v with
  | bool | int | real =>
    cases counts
    rfl
  | member =>
    obtain ⟨_, _, _, _, rfl, rfl⟩ := exists_int_of_member counts
    rfl
  | scalar s => exact absurd rfl (plain s)
  | marked c v =>
    cases v with
    | bool | int | real =>
      cases counts
      rfl
    | member =>
      obtain ⟨_, _, _, _, rfl, rfl⟩ := exists_int_of_member counts
      rfl
    | scalar s => exact absurd rfl (plain s)
    | _ => cases counts
  | _ => cases counts

/-- How a number is related to zero depends on one order of the two, whichever way it is asked. -/
theorem relates_zero {v : Value} (number : v.number?.isSome = true) {r : Relation} {b : Bool}
    (related : relates [] r v (.int 0) = .ok b) :
    ∃ o : Option Ordering, ∀ r, relates [] r v (.int 0) = .ok (r.admits o) := by
  by_cases scalar : ∃ s, v.bare = .scalar s
  · obtain ⟨s, bare⟩ := scalar
    have elementwise (r : Relation) := relate_elements bare (answersByElements_scalar bare number) r
    rcases elements_scalar bare number with ⟨type, x, elements⟩ | ⟨type, xs, elements⟩
    · obtain ⟨o, ordered⟩ := relate_order type x
      refine ⟨o, fun r => ?_⟩
      rw [relates, elementwise, elements]
      show (Elements.relate r (fun x y => compareWithin [] (nestingLimit - 1) r x y >>= truth)
        ⟨type, [], .numbers [x]⟩ ⟨Option.none, [], .numbers [.whole 0]⟩ >>= truth) = _
      rw [ordered]
      exact truth_ofFlags _
    · rw [relates, elementwise, elements] at related
      cases related
  · obtain ⟨x, counts⟩ := Option.isSome_iff_exists.mp number
    exact ⟨x.order? .zero, relates_number counts fun s bare => scalar ⟨s, bare⟩⟩

end Value

namespace EngineSettings

variable {fusion maxsize ttl : Value} {environment : List (Text × Text)} {clock : Clock}
  {s : EngineSettings} {f : Fault}

theorem of_checkMaxsize (checked : checkMaxsize maxsize = .ok ()) :
    ∃ n, maxsize.int? = some n ∧ 1 ≤ n := by
  unfold checkMaxsize at checked
  split at checked
  · next positive =>
    cases counts : maxsize.int? with
    | none =>
      rw [counts] at positive
      cases positive
    | some n =>
      rw [counts] at positive
      exact ⟨n, rfl, of_decide_eq_true positive⟩
  · obtain ⟨_, _, refused⟩ := bind_eq_ok checked
    cases refused

/-- A time to live that is not at most zero is positive or compares with zero in no way. -/
theorem of_checkTtl (number : ttl = .none ∨ ttl.number?.isSome = true)
    (checked : checkTtl ttl = .ok ()) :
    ttl = .none ∨ Value.relates [] .greater ttl (.int 0) = .ok true ∨
      ∀ r, Value.relates [] r ttl (.int 0) = .ok false := by
  rcases number with rfl | number
  · exact Or.inl rfl
  · right
    unfold checkTtl at checked
    split at checked
    · cases number
    · obtain ⟨b, related, checked⟩ := bind_eq_ok checked
      obtain ⟨o, ordered⟩ := Value.relates_zero number related
      cases b with
      | true =>
        rw [if_pos rfl] at checked
        obtain ⟨_, _, refused⟩ := bind_eq_ok checked
        cases refused
      | false =>
        rw [ordered] at related
        simp only [ordered]
        cases o with
        | none => exact Or.inr fun r => by cases r <;> rfl
        | some o =>
          cases o with
          | gt => exact Or.inl rfl
          | _ => cases related

theorem isBounded_of_ofParts (number : ttl = .none ∨ ttl.number?.isSome = true)
    (made : ofParts fusion maxsize ttl clock = .ok s) : s.IsBounded := by
  obtain ⟨_, sized, made⟩ := bind_eq_ok made
  obtain ⟨_, timed, made⟩ := bind_eq_ok made
  cases made
  exact ⟨of_checkMaxsize sized, of_checkTtl number timed⟩

theorem shownOrFault_int {n : Int} (short : Number.isUnwritable n = false) :
    Value.shownOrFault (.int n) = .ok (Text.ofInt n) := by
  have shown : Value.shown (.int n) = some (Text.ofInt n) := by
    rw [Value.shown, Value.shownInt, if_neg (Bool.eq_false_iff.mp short)]
  unfold Value.shownOrFault Value.written
  rw [shown]
  rfl

theorem kind_of_checkMaxsize {n : Int} (short : Number.isUnwritable n = false)
    (fails : checkMaxsize (.int n) = .error f) : f.kind = .configuration := by
  unfold checkMaxsize at fails
  split at fails
  · cases fails
  · refine (Value.of_refuse fails).resolve_right ?_
    rw [shownOrFault_int short]
    exact nofun

theorem kind_of_checkTtl {x : Float} (fails : checkTtl (.real x) = .error f) :
    f.kind = .configuration := by
  unfold checkTtl at fails
  dsimp only at fails
  rcases bind_eq_error fails with unrelated | ⟨b, _, fails⟩
  · rw [Value.relates_number (v := .real x) rfl (fun _ => nofun)] at unrelated
    cases unrelated
  · cases b with
    | false => cases fails
    | true =>
      rw [if_pos rfl] at fails
      refine (Value.of_refuse fails).resolve_right ?_
      exact nofun

theorem kind_of_invalid {α : Type} {name text : Text}
    (fails : (invalid name text : Except Fault α) = .error f) : f.kind = .configuration := by
  cases fails
  rfl

/-- What the environment says of a setting is its default or was read from a text. -/
theorem of_read {name : Text} {missing v : Value} {g : Text → Except Fault Value}
    (found : ofEnvironment.read environment name missing g = .ok v) :
    v = missing ∨ ∃ t, g t = .ok v := by
  unfold ofEnvironment.read at found
  split at found
  · exact Or.inr ⟨_, found⟩
  · exact Or.inl (Except.ok.inj found).symm

theorem exists_of_read_error {name : Text} {missing : Value} {g : Text → Except Fault Value}
    (fails : ofEnvironment.read environment name missing g = .error f) :
    ∃ t, g t = .error f := by
  unfold ofEnvironment.read at fails
  split at fails
  · exact ⟨_, fails⟩
  · cases fails

/-- What is read for the size of a cache can be written into a message. -/
theorem of_read_maxsize {maxsize : Value}
    (found : ofEnvironment.read environment "MORPHEUS_CACHE_MAXSIZE" (.int 1024) (fun t =>
      t.toInt?.elim (invalid "MORPHEUS_CACHE_MAXSIZE" t) fun n => .ok (.int n)) = .ok maxsize) :
    ∃ n, maxsize = .int n ∧ Number.isUnwritable n = false := by
  rcases of_read found with rfl | ⟨t, found⟩
  · exact ⟨1024, rfl, by decide +kernel⟩
  · cases number : t.toInt? with
    | none =>
      rw [number] at found
      cases found
    | some n =>
      rw [number] at found
      exact ⟨n, (Except.ok.inj found).symm, Text.isUnwritable_of_toInt? number⟩

/-- What is read for a time to live is a double. -/
theorem of_read_ttl {ttl : Value}
    (found : ofEnvironment.read environment "MORPHEUS_CACHE_TTL" .none (fun t =>
      t.toFloat?.elim (invalid "MORPHEUS_CACHE_TTL" t) fun x => .ok (.real x)) = .ok ttl) :
    ttl = .none ∨ ∃ x, ttl = .real x := by
  rcases of_read found with rfl | ⟨t, found⟩
  · exact Or.inl rfl
  · cases number : t.toFloat? with
    | none =>
      rw [number] at found
      cases found
    | some x =>
      rw [number] at found
      exact Or.inr ⟨x, (Except.ok.inj found).symm⟩

theorem kind_of_readSwitch {t : Text} (fails : readSwitch t = .error f) :
    f.kind = .configuration := by
  unfold readSwitch at fails
  dsimp only at fails
  split at fails
  · cases fails
  · split at fails
    · cases fails
    · exact kind_of_invalid fails

theorem isBounded_of_ofEnvironment (made : ofEnvironment environment clock = .ok s) :
    s.IsBounded := by
  obtain ⟨fusion, _, made⟩ := bind_eq_ok made
  obtain ⟨maxsize, _, made⟩ := bind_eq_ok made
  obtain ⟨ttl, timed, made⟩ := bind_eq_ok made
  refine isBounded_of_ofParts ?_ made
  rcases of_read_ttl timed with rfl | ⟨x, rfl⟩
  · exact Or.inl rfl
  · exact Or.inr rfl

/-- Settings are not read from an environment only where it is badly configured. -/
theorem kind_of_ofEnvironment (fails : ofEnvironment environment clock = .error f) :
    f.kind = .configuration := by
  rcases bind_eq_error fails with fails | ⟨fusion, _, fails⟩
  · obtain ⟨t, fails⟩ := exists_of_read_error fails
    exact kind_of_readSwitch fails
  rcases bind_eq_error fails with fails | ⟨maxsize, sized, fails⟩
  · obtain ⟨t, fails⟩ := exists_of_read_error fails
    cases number : t.toInt? with
    | none =>
      rw [number] at fails
      exact kind_of_invalid fails
    | some n =>
      rw [number] at fails
      cases fails
  rcases bind_eq_error fails with fails | ⟨ttl, timed, fails⟩
  · obtain ⟨t, fails⟩ := exists_of_read_error fails
    cases number : t.toFloat? with
    | none =>
      rw [number] at fails
      exact kind_of_invalid fails
    | some x =>
      rw [number] at fails
      cases fails
  rcases bind_eq_error fails with fails | ⟨_, _, fails⟩
  · obtain ⟨n, rfl, short⟩ := of_read_maxsize sized
    exact kind_of_checkMaxsize short fails
  rcases bind_eq_error fails with fails | ⟨_, _, fails⟩
  · rcases of_read_ttl timed with rfl | ⟨x, rfl⟩
    · cases fails
    · exact kind_of_checkTtl fails
  · cases fails

end EngineSettings

/-- Metadata and settings that are accepted keep their bounds, as far as their numbers compare with
zero, and every cost that does is accepted; a double compares with zero unless it is no number. An
environment is refused only as badly configured. -/
theorem accepted_isBounded (m : MorphMetadata) (s : EngineSettings) (f : Fault) :
    (∀ given, MorphMetadata.schema.construct given = .ok m → m.IsBounded) ∧
    (∀ v o, MorphMetadata.coerce v o = .ok m → m.IsBounded) ∧
    (∀ fusion maxsize ttl clock, (ttl = .none ∨ ttl.number?.isSome = true) →
      EngineSettings.ofParts fusion maxsize ttl clock = .ok s → s.IsBounded) ∧
    (∀ environment clock, EngineSettings.ofEnvironment environment clock = .ok s → s.IsBounded) ∧
    (∀ environment clock, EngineSettings.ofEnvironment environment clock = .error f →
      f.kind = .configuration) ∧
    (∀ q : Quantity, q.Keeps .atLeast →
      MorphMetadata.schema.construct [("cost", q.given)] =
        .ok { MorphMetadata.default with cost := q }) ∧
    ∀ (q : Quantity) (x : Float), q.given = .real x → (q.order? = none ↔ Real.parts x = .nan) :=
  ⟨fun _ => MorphMetadata.isBounded_of_construct, fun _ _ => MorphMetadata.isBounded_of_coerce,
    fun _ _ _ _ => EngineSettings.isBounded_of_ofParts,
    fun _ _ => EngineSettings.isBounded_of_ofEnvironment,
    fun _ _ => EngineSettings.kind_of_ofEnvironment,
    fun _ => MorphMetadata.construct_cost, fun _ _ => Quantity.order?_of_real⟩

/-- The double that is no number, as a quantity. -/
def unmeasured : Quantity := ⟨.real Real.nan, rfl⟩

/-- A cost and times to live are taken although they are no numbers; no size is taken below one. -/
theorem accepted_isBounded_nan :
    (∃ m, MorphMetadata.schema.construct [("cost", .real Real.nan)] = .ok m ∧ m.IsBounded) ∧
    (∃ m, MorphMetadata.coerce .none [("ttl", .real Real.nan)] = .ok m ∧ m.IsBounded) ∧
    (∃ s, EngineSettings.ofParts (.bool true) (.int 1) (.real Real.nan) .still = .ok s ∧
      s.IsBounded) ∧
    (∃ s, EngineSettings.ofEnvironment [("MORPHEUS_CACHE_TTL", " nan ")] .still = .ok s ∧
      s.IsBounded) ∧
    ∃ f, EngineSettings.ofEnvironment [("MORPHEUS_CACHE_MAXSIZE", "0")] .still = .error f ∧
      f.kind = .configuration := by
  have ends {α : Type} {x : Except Fault α} (ok : x.isOk = true) : ∃ a, x = .ok a := by
    cases x with
    | ok a => exact ⟨a, rfl⟩
    | error => cases ok
  have breaks {α : Type} {x : Except Fault α} (bad : x.isOk = false) : ∃ f, x = .error f := by
    cases x with
    | ok => cases bad
    | error f => exact ⟨f, rfl⟩
  obtain ⟨m, lasts⟩ := ends (x := MorphMetadata.coerce .none [("ttl", .real Real.nan)])
    (by decide +kernel)
  obtain ⟨s, given⟩ := ends
    (x := EngineSettings.ofParts (.bool true) (.int 1) (.real Real.nan) .still) (by decide +kernel)
  obtain ⟨s', found⟩ := ends (x := EngineSettings.ofEnvironment
    [("MORPHEUS_CACHE_TTL", " nan ")] .still) (by decide +kernel)
  obtain ⟨f, empty⟩ := breaks (x := EngineSettings.ofEnvironment
    [("MORPHEUS_CACHE_MAXSIZE", "0")] .still) (by decide +kernel)
  obtain ⟨_, coerced, made, _, refused, taken, unordered⟩ := accepted_isBounded m s f
  have costs := taken unmeasured (Or.inr ((unordered unmeasured _ rfl).mpr (by decide +kernel)))
  obtain ⟨constructed, _, _, read, _, _, _⟩ :=
    accepted_isBounded { MorphMetadata.default with cost := unmeasured } s' f
  exact ⟨⟨_, costs, constructed _ costs⟩, ⟨m, lasts, coerced _ _ lasts⟩,
    ⟨s, given, made _ _ _ _ (Or.inr rfl) given⟩, ⟨s', found, read _ _ found⟩,
    ⟨f, empty, refused _ _ empty⟩⟩

end MorphEngine
