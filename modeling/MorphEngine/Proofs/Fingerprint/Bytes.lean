import MorphEngine.Fingerprint

/-!
# Texts, numbers and chunks that bytes give back

What a fingerprint hashes is put together from texts, written numbers, and chunks of one size. Here
each of these is shown to be found again in the bytes that it is written as, also when more bytes
follow.
-/

namespace MorphEngine

/-- What stands in front of the first separator, and what stands behind it. -/
theorem split_at_separator {α : Type} {a : α} {s s' p p' : List α} (free : a ∉ s) (free' : a ∉ s')
    (same : s ++ a :: p = s' ++ a :: p') : s = s' ∧ p = p' := by
  induction s generalizing s' with
  | nil =>
    cases s' with
    | nil => exact ⟨rfl, (List.cons.inj same).2⟩
    | cons b s' =>
      have first : a = b := (List.cons.inj same).1
      exact absurd (first ▸ List.mem_cons_self) free'
  | cons b s ih =>
    cases s' with
    | nil =>
      have first : b = a := (List.cons.inj same).1
      exact absurd (first ▸ List.mem_cons_self) free
    | cons b' s' =>
      obtain ⟨first, rest⟩ := List.cons.inj same
      obtain ⟨heads, tails⟩ := ih (fun h => free (List.mem_cons_of_mem _ h))
        (fun h => free' (List.mem_cons_of_mem _ h)) rest
      exact ⟨by rw [first, heads], tails⟩

/-- Chunks of one size are found again in what they are together. -/
theorem flatten_inj_of_size {α : Type} {k : Nat} (pos : 0 < k) {xs ys : List (List α)}
    (hx : ∀ x ∈ xs, x.length = k) (hy : ∀ y ∈ ys, y.length = k)
    (same : xs.flatten = ys.flatten) : xs = ys := by
  have filled {c : List α} {rest : List (List α)} (size : c.length = k) :
      ([] : List α) ≠ (c :: rest).flatten := by
    intro none
    have lengths := congrArg List.length none
    simp only [List.length_nil, List.flatten_cons, List.length_append] at lengths
    omega
  induction xs generalizing ys with
  | nil =>
    cases ys with
    | nil => rfl
    | cons y ys => exact absurd same (filled (hy y List.mem_cons_self))
  | cons x xs ih =>
    cases ys with
    | nil => exact absurd same.symm (filled (hx x List.mem_cons_self))
    | cons y ys =>
      rw [List.forall_mem_cons] at hx hy
      obtain ⟨first, rest⟩ := List.append_inj same (hx.1.trans hy.1.symm)
      rw [first, ih hx.2 hy.2 rest]

/-- Things that are written in chunks of one size are found again in what they are written as. -/
theorem flatMap_inj_of_size {α β : Type} {k : Nat} (pos : 0 < k) {f : α → List β}
    (size : ∀ a, (f a).length = k) (inj : ∀ a b, f a = f b → a = b) {xs ys : List α}
    (same : xs.flatMap f = ys.flatMap f) : xs = ys := by
  have sizes (zs : List α) : ∀ c ∈ zs.map f, c.length = k := by
    intro c hc
    obtain ⟨a, _, rfl⟩ := List.mem_map.mp hc
    exact size a
  rw [List.flatMap_def, List.flatMap_def] at same
  exact (List.map_inj_right inj).mp (flatten_inj_of_size pos (sizes xs) (sizes ys) same)

/-! ### Texts -/

namespace Text

theorem encodePoint_cases (c : CodePoint) :
    (c.val < 0x80 ∧ encodePoint c = [c.val.toUInt8]) ∨
    (0x80 ≤ c.val ∧ c.val < 0x800 ∧
      encodePoint c = [(0xC0 + c.val / 0x40).toUInt8, (0x80 + c.val % 0x40).toUInt8]) ∨
    (0x800 ≤ c.val ∧ c.val < 0x10000 ∧
      encodePoint c = [(0xE0 + c.val / 0x1000).toUInt8, (0x80 + c.val / 0x40 % 0x40).toUInt8,
        (0x80 + c.val % 0x40).toUInt8]) ∨
    (0x10000 ≤ c.val ∧ c.val < 0x110000 ∧
      encodePoint c = [(0xF0 + c.val / 0x40000).toUInt8, (0x80 + c.val / 0x1000 % 0x40).toUInt8,
        (0x80 + c.val / 0x40 % 0x40).toUInt8, (0x80 + c.val % 0x40).toUInt8]) := by
  have bound := c.isLt
  unfold encodePoint
  by_cases one : c.val < 0x80
  · exact Or.inl ⟨one, if_pos one⟩
  by_cases two : c.val < 0x800
  · exact Or.inr (Or.inl ⟨by omega, two, by rw [if_neg one, if_pos two]⟩)
  by_cases three : c.val < 0x10000
  · refine Or.inr (Or.inr (Or.inl ⟨by omega, three, ?_⟩))
    rw [if_neg one, if_neg two, if_pos three]
  · refine Or.inr (Or.inr (Or.inr ⟨by omega, bound, ?_⟩))
    rw [if_neg one, if_neg two, if_neg three]

/-- The first code point of a text is found again in its bytes. -/
theorem encodePoint_append_inj {c d : CodePoint} {s t : List UInt8}
    (same : encodePoint c ++ s = encodePoint d ++ t) : c = d ∧ s = t := by
  rcases encodePoint_cases c with ⟨hc, ec⟩ | ⟨lc, hc, ec⟩ | ⟨lc, hc, ec⟩ | ⟨lc, hc, ec⟩ <;>
  rcases encodePoint_cases d with ⟨hd, ed⟩ | ⟨ld, hd, ed⟩ | ⟨ld, hd, ed⟩ | ⟨ld, hd, ed⟩ <;>
  · rw [ec, ed] at same
    simp only [List.cons_append, List.nil_append, List.cons.injEq, ← UInt8.toNat_inj,
      UInt8.toNat_ofNat'] at same
    first
      | omega
      | exact ⟨Fin.ext (by omega), by simp only [same]⟩

/-- A text is found again in its bytes. -/
theorem bytes_injective {s t : Text} (same : s.bytes = t.bytes) : s = t := by
  have points {cs ds : List CodePoint} (same : cs.flatMap encodePoint = ds.flatMap encodePoint) :
      cs = ds := by
    have filled (c : CodePoint) (rest : List UInt8) : [] ≠ encodePoint c ++ rest := by
      rcases encodePoint_cases c with ⟨_, e⟩ | ⟨_, _, e⟩ | ⟨_, _, e⟩ | ⟨_, _, e⟩ <;>
      · rw [e]
        nofun
    induction cs generalizing ds with
    | nil =>
      cases ds with
      | nil => rfl
      | cons d ds => exact absurd same (filled d _)
    | cons c cs ih =>
      cases ds with
      | nil => exact absurd same.symm (filled c _)
      | cons d ds =>
        obtain ⟨first, rest⟩ := encodePoint_append_inj same
        rw [first, ih rest]
  cases s
  cases t
  exact congrArg mk (points same)

theorem bytes_append (s t : Text) : (s ++ t).bytes = s.bytes ++ t.bytes := List.flatMap_append

/-- A byte below 128 stands for the code point of the same number and is no part of another one. -/
theorem ascii_not_mem_bytes {t : Text} {a : CodePoint} (ascii : a.val < 0x80) (free : a ∉ t.points) :
    a.val.toUInt8 ∉ t.bytes := by
  intro among
  obtain ⟨c, hc, inside⟩ := List.mem_flatMap.mp among
  have other : c.val ≠ a.val := fun same => free ((Fin.ext same : c = a) ▸ hc)
  have bound := c.isLt
  rcases encodePoint_cases c with ⟨h, e⟩ | ⟨l, h, e⟩ | ⟨l, h, e⟩ | ⟨l, h, e⟩ <;>
  · rw [e] at inside
    simp only [List.mem_cons, List.not_mem_nil, or_false, ← UInt8.toNat_inj,
      UInt8.toNat_ofNat'] at inside
    omega

theorem zero_not_mem_bytes {t : Text} (free : 0 ∉ t.points) : 0 ∉ t.bytes :=
  ascii_not_mem_bytes (a := 0) (by decide) free

theorem ofChar_injective {c d : Char} (same : ofChar c = ofChar d) : c = d := by
  have values : c.toNat = d.toNat := congrArg (fun x : CodePoint => x.val) same
  exact Char.toNat_inj.mp values

theorem ofString_injective {s t : String} (same : ofString s = ofString t) : s = t := by
  have chars : s.toList.map ofChar = t.toList.map ofChar := congrArg points same
  exact String.toList_inj.mp (List.map_inj_right (fun _ _ => ofChar_injective) |>.mp chars)

/-- A whole number is found again in its digits. -/
theorem ofInt_injective {m n : Int} (same : ofInt m = ofInt n) : m = n := by
  have read {a b : Nat} (same : a.repr = b.repr) : a = b := by
    rw [← Nat.ofDigitChars_ten_toDigits (n := a), ← Nat.ofDigitChars_ten_toDigits (n := b),
      ← Nat.toList_repr, ← Nat.toList_repr, same]
  have unsigned {a b : Nat} : a.repr ≠ "-" ++ b.repr := by
    intro same
    have first : '-' ∈ Nat.toDigits 10 a := by
      rw [← Nat.toList_repr, same, String.toList_append]
      exact List.mem_append_left _ List.mem_cons_self
    exact absurd (Nat.isDigit_of_mem_toDigits (by decide) (by decide) first) (by decide)
  have texts : m.repr = n.repr := ofString_injective same
  rw [Int.repr_eq_if, Int.repr_eq_if] at texts
  by_cases hm : 0 ≤ m <;> by_cases hn : 0 ≤ n
  · rw [if_pos hm, if_pos hn] at texts
    have := read texts
    omega
  · rw [if_pos hm, if_neg hn] at texts
    exact absurd texts unsigned
  · rw [if_neg hm, if_pos hn] at texts
    exact absurd texts.symm unsigned
  · rw [if_neg hm, if_neg hn] at texts
    have := read (String.append_right_inj _ |>.mp texts)
    omega

/-- A written number has nothing but digits in it. -/
theorem not_mem_ofNat {c : Char} (other : c.isDigit = false) (n : Nat) :
    ofChar c ∉ (ofNat n).points := by
  intro among
  obtain ⟨d, hd, same⟩ := List.mem_map.mp among
  have digit : d ∈ Nat.toDigits 10 n := by
    rw [← Nat.toList_repr]
    exact hd
  have isDigit := Nat.isDigit_of_mem_toDigits (by decide) (by decide) digit
  rw [ofChar_injective same, other] at isDigit
  cases isDigit

theorem ofNat_ne_empty (n : Nat) : (ofNat n).points ≠ [] := by
  intro none
  have chars : (Nat.repr n).toList = [] := List.map_eq_nil_iff.mp none
  rw [Nat.toList_repr] at chars
  exact absurd chars (Nat.toDigits_ne_nil)

theorem ofNat_injective {m n : Nat} (same : ofNat m = ofNat n) : m = n :=
  Int.ofNat.inj (ofInt_injective same)

end Text

/-! ### Hexadecimal text -/

theorem colon_not_mem_toDigits {b : Nat} (base : 1 < b) (n : Nat) : ':' ∉ Nat.toDigits b n := by
  have digit (k : Nat) : ':' ≠ Nat.digitChar k := (Nat.digitChar_ne ':' (by decide)).symm
  induction n using Nat.strongRecOn with
  | ind n ih =>
    rw [Nat.toDigits_eq_if base]
    split
    · simp only [List.mem_singleton]
      exact digit n
    · next large =>
      rw [List.mem_append, List.mem_singleton, not_or]
      exact ⟨ih _ (Nat.div_lt_self (by omega) base), digit _⟩

/-- The text of a double has no colon in it. -/
theorem Real.colon_not_mem_hexText (x : Float) : Text.ofChar ':' ∉ (Real.hexText x).points := by
  have chars {cs : List Char} (free : ':' ∉ cs) : Text.ofChar ':' ∉ (Text.ofChars cs).points := by
    intro among
    obtain ⟨c, hc, same⟩ := List.mem_map.mp among
    exact free (Text.ofChar_injective same ▸ hc)
  have sign (negative : Bool) : ':' ∉ signText negative := by cases negative <;> decide
  have digits (n : Nat) : ':' ∉ Text.hexDigits 13 n := by
    rw [Text.hexDigits, List.mem_append, not_or, List.mem_replicate]
    exact ⟨fun zero => absurd zero.2 (by decide), colon_not_mem_toDigits (by decide) n⟩
  have exponent (e : Int) : ':' ∉ exponentText e := by
    rw [exponentText, List.mem_cons, not_or]
    refine ⟨?_, colon_not_mem_toDigits (by decide) _⟩
    split <;> decide
  apply chars
  split
  · decide
  · rw [List.mem_append, not_or]
    exact ⟨sign _, by decide⟩
  · rw [List.mem_append, not_or]
    refine ⟨sign _, ?_⟩
    split
    · decide
    · split
      · rw [List.mem_append, List.mem_append, not_or, not_or]
        exact ⟨⟨by decide, digits _⟩, by decide⟩
      · rw [List.mem_append, List.mem_append, List.mem_cons, not_or, not_or, not_or]
        exact ⟨⟨by decide, digits _⟩, by decide, exponent _⟩

theorem Digest.bytes_injective {d e : Digest} (same : d.bytes = e.bytes) : d = e := by
  cases d
  cases e
  cases same
  rfl

/-- A digest is found again in its hexadecimal text. -/
theorem Digest.hex_injective {d e : Digest} (same : d.hex = e.hex) : d = e := by
  have size : ∀ n < 256, (Text.hexDigits 2 n).length = 2 := by decide +kernel
  have read : ∀ n < 256, Real.readHex (Text.hexDigits 2 n) = some n := by decide +kernel
  have byte (b c : UInt8) (same : Text.hexByte b = Text.hexByte c) : b = c := by
    have numbers := congrArg Real.readHex same
    rw [Text.hexByte, Text.hexByte, read _ b.toNat_lt, read _ c.toNat_lt] at numbers
    exact UInt8.toNat_inj.mp (Option.some.inj numbers)
  have chars : d.bytes.flatMap Text.hexByte = e.bytes.flatMap Text.hexByte :=
    (List.map_inj_right fun _ _ => Text.ofChar_injective).mp (congrArg Text.points same)
  exact bytes_injective
    (flatMap_inj_of_size (by decide) (fun b => size _ b.toNat_lt) byte chars)

/-! ### Sorted chunks -/

namespace Fingerprint

theorem bytesLe_cons (a b : UInt8) (s t : List UInt8) :
    bytesLe (a :: s) (b :: t) = true ↔
      a.toNat < b.toNat ∨ a.toNat = b.toNat ∧ bytesLe s t = true := by
  rw [bytesLe, Bool.or_eq_true, Bool.and_eq_true, decide_eq_true_eq, beq_iff_eq,
    UInt8.lt_iff_toNat_lt, UInt8.toNat_inj]

theorem bytesLe_total (s t : List UInt8) : (bytesLe s t || bytesLe t s) = true := by
  rw [Bool.or_eq_true]
  induction s generalizing t with
  | nil => exact Or.inl rfl
  | cons a s ih =>
    cases t with
    | nil => exact Or.inr rfl
    | cons b t =>
      rw [bytesLe_cons, bytesLe_cons]
      rcases Nat.lt_trichotomy a.toNat b.toNat with before | same | after
      · exact Or.inl (Or.inl before)
      · exact (ih t).imp (fun rest => Or.inr ⟨same, rest⟩) (fun rest => Or.inr ⟨same.symm, rest⟩)
      · exact Or.inr (Or.inl after)

theorem bytesLe_trans (s t u : List UInt8) (first : bytesLe s t = true)
    (second : bytesLe t u = true) : bytesLe s u = true := by
  induction s generalizing t u with
  | nil => rfl
  | cons a s ih =>
    cases t with
    | nil => cases first
    | cons b t =>
      cases u with
      | nil => cases second
      | cons c u =>
        rw [bytesLe_cons] at first second ⊢
        rcases first with less | ⟨same, rest⟩
        · exact Or.inl (by omega)
        · rcases second with less' | ⟨same', rest'⟩
          · exact Or.inl (by omega)
          · exact Or.inr ⟨by omega, ih t u rest rest'⟩

theorem bytesLe_antisymm {s t : List UInt8} (first : bytesLe s t = true)
    (second : bytesLe t s = true) : s = t := by
  induction s generalizing t with
  | nil =>
    cases t with
    | nil => rfl
    | cons b t => cases second
  | cons a s ih =>
    cases t with
    | nil => cases first
    | cons b t =>
      rw [bytesLe_cons] at first second
      have heads : a.toNat = b.toNat := by omega
      have before : bytesLe s t = true := by
        rcases first with less | ⟨_, rest⟩
        · omega
        · exact rest
      have after : bytesLe t s = true := by
        rcases second with less | ⟨_, rest⟩
        · omega
        · exact rest
      rw [UInt8.toNat_inj.mp heads, ih before after]

/-- Sorting forgets the order of chunks. -/
theorem sorted_eq_of_perm {xs ys : List (List UInt8)} (perm : xs.Perm ys) :
    sorted xs = sorted ys := by
  have ascending (zs : List (List UInt8)) : (zs.mergeSort bytesLe).Pairwise (bytesLe · ·) :=
    List.pairwise_mergeSort bytesLe_trans bytesLe_total zs
  have shuffled : (xs.mergeSort bytesLe).Perm (ys.mergeSort bytesLe) :=
    (List.mergeSort_perm xs bytesLe).trans (perm.trans (List.mergeSort_perm ys bytesLe).symm)
  rw [sorted, sorted, shuffled.eq_of_pairwise (fun _ _ _ _ => bytesLe_antisymm) (ascending xs)
    (ascending ys)]

/-- Sorting forgets nothing else about chunks of one size. -/
theorem perm_of_sorted_eq {k : Nat} (pos : 0 < k) {xs ys : List (List UInt8)}
    (hx : ∀ x ∈ xs, x.length = k) (hy : ∀ y ∈ ys, y.length = k) (same : sorted xs = sorted ys) :
    xs.Perm ys := by
  have chunks : xs.mergeSort bytesLe = ys.mergeSort bytesLe :=
    flatten_inj_of_size pos (fun x h => hx x (List.mem_mergeSort.mp h))
      (fun y h => hy y (List.mem_mergeSort.mp h)) same
  exact (List.mergeSort_perm xs bytesLe).symm.trans
    (chunks ▸ List.mergeSort_perm ys bytesLe)

end Fingerprint

end MorphEngine
