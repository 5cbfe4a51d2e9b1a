import MorphEngine.Value.Members
import MorphEngine.Value.Name

/-!
# Names as keys, and in order

Whatever form a text is given in, it can be a key, and is found under that text and no other. Texts
are ordered by their code points, which leaves no two of them level, so names with different texts
have one ascending order.
-/

namespace MorphEngine

namespace Text

theorem precedes_cons (a b : CodePoint) (s t : List CodePoint) :
    precedes (a :: s) (b :: t) = true ↔ a.val < b.val ∨ a.val = b.val ∧ precedes s t = true := by
  rw [precedes, Bool.or_eq_true, Bool.and_eq_true, decide_eq_true_eq, beq_iff_eq, Fin.lt_def,
    Fin.ext_iff]

theorem precedes_trans {s t u : List CodePoint} (first : precedes s t = true)
    (second : precedes t u = true) : precedes s u = true := by
  induction s generalizing t u with
  | nil =>
    cases u with
    | nil =>
      cases t with
      | nil => exact second
      | cons b t => cases second
    | cons c u => rfl
  | cons a s ih =>
    cases t with
    | nil => cases first
    | cons b t =>
      cases u with
      | nil => cases second
      | cons c u =>
        rw [precedes_cons] at first second ⊢
        rcases first with less | ⟨same, rest⟩
        · rcases second with less' | ⟨same', _⟩
          · exact Or.inl (by omega)
          · exact Or.inl (by omega)
        · rcases second with less' | ⟨same', rest'⟩
          · exact Or.inl (by omega)
          · exact Or.inr ⟨same.trans same', ih rest rest'⟩

theorem precedes_asymm {s t : List CodePoint} (before : precedes s t = true) :
    precedes t s = false := by
  induction s generalizing t with
  | nil =>
    cases t with
    | nil => cases before
    | cons b t => rfl
  | cons a s ih =>
    cases t with
    | nil => cases before
    | cons b t =>
      rw [Bool.eq_false_iff]
      intro after
      rw [precedes_cons] at before after
      rcases before with less | ⟨same, rest⟩
      · rcases after with less' | ⟨same', _⟩
        · omega
        · omega
      · rcases after with less' | ⟨_, rest'⟩
        · omega
        · rw [ih rest] at rest'
          cases rest'

/-- Of two different texts one comes first. -/
theorem eq_of_not_precedes {s t : List CodePoint} (notBefore : precedes s t = false)
    (notAfter : precedes t s = false) : s = t := by
  induction s generalizing t with
  | nil =>
    cases t with
    | nil => rfl
    | cons b t => cases notBefore
  | cons a s ih =>
    cases t with
    | nil => cases notAfter
    | cons b t =>
      rw [Bool.eq_false_iff, Ne, precedes_cons] at notBefore notAfter
      have same : a = b := by
        rcases Nat.lt_trichotomy a.val b.val with less | same | less
        · exact absurd (Or.inl less) notBefore
        · exact Fin.ext same
        · exact absurd (Or.inl less) notAfter
      subst same
      have rest : precedes s t = false :=
        Bool.eq_false_iff.mpr fun before => notBefore (Or.inr ⟨rfl, before⟩)
      have rest' : precedes t s = false :=
        Bool.eq_false_iff.mpr fun after => notAfter (Or.inr ⟨rfl, after⟩)
      rw [ih rest rest']

theorem le_total (s t : Text) : (le s t || le t s) = true := by
  cases before : lt t s with
  | false =>
    rw [le, before]
    rfl
  | true =>
    have notAfter : lt s t = false := precedes_asymm before
    rw [le, le, before, notAfter]
    rfl

theorem lt_of_le_of_ne {s t : Text} (le : le s t = true) (differs : s ≠ t) : lt s t = true := by
  rw [Text.le, Bool.not_eq_true'] at le
  cases before : lt s t with
  | true => rfl
  | false =>
    have same : s.points = t.points := eq_of_not_precedes before le
    exact absurd (congrArg Text.mk same) differs

theorem le_trans (s t u : Text) (first : le s t = true) (second : le t u = true) :
    le s u = true := by
  by_cases level : s = t
  · rw [level]
    exact second
  · by_cases level' : t = u
    · rw [← level']
      exact first
    · have before : lt s u = true :=
        precedes_trans (lt_of_le_of_ne first level) (lt_of_le_of_ne second level')
      have notAfter : lt u s = false := precedes_asymm before
      rw [le, notAfter]
      rfl

end Text

namespace Name

/-- Names with different texts stand in strictly ascending order once they are sorted. -/
theorem sort_ascending {ns : List Name} (distinct : ns.Pairwise fun a b => a.text ≠ b.text) :
    (sort ns).Pairwise fun a b => a.text.lt b.text = true := by
  have ascending : (sort ns).Pairwise fun a b => Text.le a.text b.text = true :=
    List.pairwise_mergeSort (fun a b c => Text.le_trans a.text b.text c.text)
      (fun a b => Text.le_total a.text b.text) ns
  have apart : (sort ns).Pairwise fun a b => a.text ≠ b.text :=
    (List.mergeSort_perm ns _).symm.pairwise distinct fun {a b} differs => differs.symm
  exact ascending.imp₂ (fun a b le differs => Text.lt_of_le_of_ne le differs) apart

theorem mem_sort {n : Name} {ns : List Name} : n ∈ sort ns ↔ n ∈ ns := List.mem_mergeSort

theorem isText_given (n : Name) : n.given.isText = true := by
  rw [Value.isText, n.reads]
  rfl

end Name

namespace Value

/-- A text is given as itself, as a member of an enumeration, or as a scalar. -/
theorem text_cases {v : Value} {t : Text} (reads : v.text? = some t) :
    v = .text t ∨ (∃ m, v = .member m) ∨ ∃ s, v = .scalar s ∧ ∃ n little, s.type = .text n little := by
  cases v with
  | text s =>
    cases reads
    exact Or.inl rfl
  | member m => exact Or.inr (Or.inl ⟨m, rfl⟩)
  | scalar s =>
    refine Or.inr (Or.inr ⟨s, rfl, ?_⟩)
    obtain ⟨type, bs⟩ := s
    cases type with
    | text n little => exact ⟨n, little, rfl⟩
    | _ => cases reads
  | _ => cases reads

/-- Texts are the same to a program when they read the same, whatever form they have. -/
theorem same_of_texts {v w : Value} {s t : Text} (hv : v.text? = some s) (hw : w.text? = some t) :
    v.same w = decide (s = t) := by
  have atoms : v.same w = v.sameAtom w := by
    rcases text_cases hv with rfl | ⟨m, rfl⟩ | ⟨a, rfl, _⟩ <;> simp only [same]
  have general : v.sameAtom w = decide (s = t) := by
    unfold sameAtom
    rcases text_cases hv with rfl | ⟨m, rfl⟩ | ⟨a, rfl, _⟩ <;>
      rcases text_cases hw with rfl | ⟨n, rfl⟩ | ⟨b, rfl, _⟩ <;>
      simp only [hv, hw]
  rw [atoms, general]

/-- A text is no number, no byte string and no time. -/
theorem only_text_of_text {v : Value} {t : Text} (reads : v.text? = some t) :
    v.complex? = Option.none ∧ v.byteString? = Option.none ∧ v.time? = Option.none := by
  rcases text_cases reads with rfl | ⟨⟨⟨owner, isValue, names⟩, name, value⟩, rfl⟩ |
    ⟨⟨type, bs⟩, rfl, n, little, kind⟩
  · exact ⟨rfl, rfl, rfl⟩
  · cases value <;> cases isValue <;> cases reads
    exact ⟨rfl, rfl, rfl⟩
  · cases kind
    exact ⟨rfl, rfl, rfl⟩

/-- What is no text is never the same as one. -/
theorem same_eq_false_of_text {v w : Value} {t : Text} (hv : v.text? = Option.none)
    (hw : w.text? = some t) : v.same w = false := by
  obtain ⟨numberless, byteless, timeless⟩ := only_text_of_text hw
  have atom : v.sameAtom w = false := by
    unfold sameAtom
    split
    case h_8 =>
      rw [hv, hw, numberless, byteless, timeless]
      dsimp only
      split
      · contradiction
      · split
        · contradiction
        · split
          · next a b _ _ =>
            refine decide_eq_false fun same => ?_
            rw [same, hw] at hv
            cases hv
          · contradiction
          · rfl
    all_goals cases hw
  rcases text_cases hw with rfl | ⟨m, rfl⟩ | ⟨⟨type, bs⟩, rfl, n, little, kind⟩ <;>
  cases v <;> simp only [same, atom, tupleItems?, entries?, setMembers?, Option.any_none]
/-- A text can be a key, and can be looked for among any keys. -/
theorem checkKeyAmong_of_text {v : Value} {t : Text} (reads : v.text? = some t)
    (keys : List Value) : v.checkKey = .ok () ∧ v.checkKeyAmong keys = .ok () := by
  have hashable : v.unhashable? = Option.none := by
    rcases text_cases reads with rfl | ⟨m, rfl⟩ | ⟨⟨type, bs⟩, rfl, n, little, kind⟩
    · rfl
    · rfl
    · cases kind
      rfl
  have flat : v.isDeeperThan nestingLimit = false := by
    rcases text_cases reads with rfl | ⟨m, rfl⟩ | ⟨a, rfl, _⟩ <;> rfl
  have key : v.checkKey = .ok () := by rw [checkKey, hashable]
  refine ⟨key, ?_⟩
  rw [checkKeyAmong, key, checkMeeting, flat]
  rfl

/-! ### Sets of texts -/

/-- Some of the values reads as a text. -/
def Reads (xs : List Value) (t : Text) : Prop := ∃ x ∈ xs, x.text? = some t

theorem reads_cons {x : Value} {xs : List Value} {t : Text} :
    Reads (x :: xs) t ↔ x.text? = some t ∨ Reads xs t := by
  simp only [Reads, List.mem_cons, or_and_right, exists_or, exists_eq_left]

theorem reads_append {xs ys : List Value} {t : Text} :
    Reads (xs ++ ys) t ↔ Reads xs t ∨ Reads ys t := by
  simp only [Reads, List.mem_append, or_and_right, exists_or]

/-- A text joins a set of texts, unless one that reads the same is there. -/
theorem join_text {x : Value} {members : List Value} (isText : x.isText = true)
    (texts : ∀ m ∈ members, m.isText = true) :
    ∃ joined, join members x = .ok joined ∧ (∀ m ∈ joined, m.isText = true) ∧
      ∀ t, Reads joined t ↔ Reads members t ∨ x.text? = some t := by
  obtain ⟨s, reads⟩ := Option.isSome_iff_exists.mp isText
  have checked : join members x =
      .ok (if members.any (·.same x) then members else members ++ [x]) := by
    rw [join, (checkKeyAmong_of_text reads members).2]
    rfl
  by_cases there : members.any (·.same x) = true
  · refine ⟨members, by rw [checked, if_pos there], texts, fun t => ?_⟩
    refine ⟨Or.inl, fun held => held.elim id fun same => ?_⟩
    obtain ⟨m, hm, agrees⟩ := List.any_eq_true.mp there
    obtain ⟨u, hu⟩ := Option.isSome_iff_exists.mp (texts m hm)
    rw [same_of_texts hu same, decide_eq_true_eq] at agrees
    exact ⟨m, hm, by rw [hu, agrees]⟩
  · refine ⟨members ++ [x], by rw [checked, if_neg there], ?_, fun t => ?_⟩
    · intro m hm
      rcases List.mem_append.mp hm with hm | hm
      · exact texts m hm
      · rw [List.mem_singleton.mp hm]
        exact isText
    · rw [reads_append, reads_cons]
      constructor
      · rintro (held | same | ⟨m, hm, _⟩)
        · exact Or.inl held
        · exact Or.inr same
        · cases hm
      · rintro (held | same)
        · exact Or.inl held
        · exact Or.inr (Or.inl same)

/-- Texts make up a set that reads as they do. -/
theorem setOf_texts {xs : List Value} (texts : ∀ x ∈ xs, x.isText = true) :
    ∃ members, setOf xs = .ok members ∧ (∀ m ∈ members, m.isText = true) ∧
      ∀ t, Reads members t ↔ Reads xs t := by
  have joins (start : List Value) (held : ∀ m ∈ start, m.isText = true) :
      ∃ members, xs.foldlM join start = .ok members ∧ (∀ m ∈ members, m.isText = true) ∧
        ∀ t, Reads members t ↔ Reads start t ∨ Reads xs t := by
    induction xs generalizing start with
    | nil =>
      refine ⟨start, rfl, held, fun t => ⟨Or.inl, ?_⟩⟩
      rintro (there | ⟨x, hx, _⟩)
      · exact there
      · cases hx
    | cons x xs ih =>
      rw [List.forall_mem_cons] at texts
      obtain ⟨next, joined, held', reads⟩ := join_text texts.1 held
      obtain ⟨members, folded, isText, reads'⟩ := ih texts.2 next held'
      refine ⟨members, ?_, isText, fun t => ?_⟩
      · rw [List.foldlM_cons, joined]
        exact folded
      · rw [reads', reads, reads_cons, or_assoc]
  obtain ⟨members, made, isText, reads⟩ := joins [] fun m hm => absurd hm List.not_mem_nil
  refine ⟨members, made, isText, fun t => (reads t).trans ⟨?_, Or.inr⟩⟩
  rintro (⟨x, hx, _⟩ | there)
  · cases hx
  · exact there

end Value

end MorphEngine
