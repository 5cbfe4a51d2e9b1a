import Mathlib.Data.List.Basic
import Mathlib.Data.List.Forall2

/-!
# The different keys of a list

Of keys that are equal only the first one counts. Taking some keys away, or putting one in front, is
the same before and after the repetitions are gone. How far into the different keys a key comes is
how many different keys there are before it first occurs.
-/

namespace MorphEngine

namespace Distinct

variable {κ : Type} [BEq κ]

/-- A condition that does not tell equal keys apart. -/
def Respects (p : κ → Bool) : Prop := ∀ k k', (k == k') = true → p k = p k'

theorem mem_of_mem_eraseDups : ∀ {ks : List κ} {k : κ}, k ∈ ks.eraseDups → k ∈ ks
  | [], k, hk => by simp at hk
  | k' :: ks, k, hk => by
    rw [List.eraseDups_cons] at hk
    rcases List.mem_cons.mp hk with rfl | hk
    · exact List.mem_cons_self
    · exact List.mem_cons_of_mem _ (List.mem_filter.mp (mem_of_mem_eraseDups hk)).1
termination_by ks => ks.length
decreasing_by
  have := List.length_filter_le (!· == k') ks
  simp only [List.length_cons]
  omega

/-- No two of the different keys are equal. -/
theorem eraseDups_pairwise :
    ∀ ks : List κ, ks.eraseDups.Pairwise fun k k' => (k' == k) = false
  | [] => by simp
  | k :: ks => by
    rw [List.eraseDups_cons, List.pairwise_cons]
    refine ⟨fun k' hk' => ?_, eraseDups_pairwise (ks.filter (!· == k))⟩
    simpa using (List.mem_filter.mp (mem_of_mem_eraseDups hk')).2
termination_by ks => ks.length
decreasing_by
  have := List.length_filter_le (!· == k) ks
  simp only [List.length_cons]
  omega

/-- Keys can be taken away before or after the repetitions are gone. -/
theorem eraseDups_filter {p : κ → Bool} (respects : Respects p) :
    ∀ ks : List κ, (ks.filter p).eraseDups = ks.eraseDups.filter p
  | [] => by simp
  | k :: ks => by
    have ih := eraseDups_filter respects (ks.filter (!· == k))
    rw [List.filter_comm] at ih
    cases holds : p k with
    | true =>
      rw [List.filter_cons_of_pos holds, List.eraseDups_cons, List.eraseDups_cons,
        List.filter_cons_of_pos holds, ih]
    | false =>
      have gone : (ks.filter p).filter (!· == k) = ks.filter p := by
        rw [List.filter_eq_self]
        intro k' hk'
        have kept := (List.mem_filter.mp hk').2
        rw [Bool.not_eq_true', Bool.eq_false_iff]
        intro same
        rw [respects k' k same, holds] at kept
        cases kept
      rw [List.filter_cons_of_neg (by simp [holds]), List.eraseDups_cons,
        List.filter_cons_of_neg (by simp [holds]), ← ih, gone]
termination_by ks => ks.length
decreasing_by
  have := List.length_filter_le (!· == k) ks
  simp only [List.length_cons]
  omega

/-- The keys before the first one that equals the given key. -/
def before (key : κ) (ks : List κ) : List κ := ks.takeWhile (!· == key)

omit [BEq κ] in
/-- As long as the first few keys pass a condition, they are the first ones that pass it. -/
theorem take_filter {p : κ → Bool} {n : Nat} {ks : List κ} (pass : ∀ k ∈ ks.take n, p k = true) :
    (ks.filter p).take n = ks.take n := by
  induction ks generalizing n with
  | nil => rfl
  | cons k ks ih =>
    cases n with
    | zero => rfl
    | succ n =>
      rw [List.take_succ_cons, List.forall_mem_cons] at pass
      rw [List.filter_cons_of_pos pass.1, List.take_succ_cons, List.take_succ_cons, ih pass.2]

section Equivalence

variable [EquivBEq κ] {key : κ}

theorem respects_other (key : κ) : Respects (!· == key) := fun k k' same => by
  dsimp only
  rw [BEq.congr_left same]

/-- A key in front of others is the first of the different keys. -/
theorem eraseDups_front (key : κ) (ks : List κ) :
    (key :: ks).eraseDups = key :: ks.eraseDups.filter (!· == key) := by
  rw [List.eraseDups_cons, eraseDups_filter (respects_other key)]

/-- Taking a key away from the first few different keys leaves the first few of the others, one
fewer. -/
theorem filter_take {n : Nat} {ks : List κ} (distinct : ks.Pairwise fun k k' => (k' == k) = false)
    (there : ∃ k ∈ ks.take n, (k == key) = true) :
    (ks.take n).filter (!· == key) = (ks.filter (!· == key)).take (n - 1) := by
  induction ks generalizing n with
  | nil => simp
  | cons k ks ih =>
    cases n with
    | zero => simp at there
    | succ n =>
      rw [List.pairwise_cons] at distinct
      rw [List.take_succ_cons] at there ⊢
      cases same : k == key with
      | true =>
        have others : ∀ k' ∈ ks, (!k' == key) = true := by
          intro k' hk'
          rw [← BEq.congr_right same, distinct.1 k' hk']
          rfl
        rw [List.filter_cons_of_neg (by simp [same]), List.filter_cons_of_neg (by simp [same]),
          List.filter_eq_self.mpr others,
          List.filter_eq_self.mpr fun k' hk' => others k' (List.mem_of_mem_take hk')]
        rfl
      | false =>
        obtain ⟨k', hk', equal⟩ := there
        have later : k' ∈ ks.take n := by
          rcases List.mem_cons.mp hk' with rfl | later
          · simp [same] at equal
          · exact later
        have room : n - 1 + 1 = n := by
          cases n with
          | zero => simp at later
          | succ n => rfl
        rw [List.filter_cons_of_pos (by simp [same]), List.filter_cons_of_pos (by simp [same]),
          ih distinct.2 ⟨k', later, equal⟩, Nat.add_sub_cancel, ← room, List.take_succ_cons, room]

/-- Another key can be taken away before or after the ones up to a key are cut off. -/
theorem before_filter {k : κ} (other : (k == key) = false) (ks : List κ) :
    before key (ks.filter (!· == k)) = (before key ks).filter (!· == k) := by
  induction ks with
  | nil => rfl
  | cons k' ks ih =>
    cases same : k' == k with
    | true =>
      have goesOn : (k' == key) = false := by rw [BEq.congr_left same, other]
      rw [List.filter_cons_of_neg (by simp [same]), before, before,
        List.takeWhile_cons_of_pos (by simp [goesOn]), List.filter_cons_of_neg (by simp [same])]
      exact ih
    | false =>
      rw [List.filter_cons_of_pos (by simp [same]), before, before]
      cases ends : k' == key with
      | true =>
        rw [List.takeWhile_cons_of_neg (by simp [ends]), List.takeWhile_cons_of_neg (by simp [ends])]
        rfl
      | false =>
        rw [List.takeWhile_cons_of_pos (by simp [ends]), List.takeWhile_cons_of_pos (by simp [ends]),
          List.filter_cons_of_pos (by simp [same])]
        exact congrArg (k' :: ·) ih

/-- A key is among the first few different keys when it occurs, with fewer different keys before
it. -/
theorem exists_mem_take_eraseDups (key : κ) : ∀ (n : Nat) (ks : List κ),
    (∃ k ∈ ks.eraseDups.take n, (k == key) = true) ↔
      (∃ k ∈ ks, (k == key) = true) ∧ (before key ks).eraseDups.length < n
  | n, [] => by simp
  | 0, k :: ks => by simp
  | n + 1, k :: ks => by
    have ih := exists_mem_take_eraseDups key n (ks.filter (!· == k))
    rw [List.eraseDups_cons, List.take_succ_cons]
    cases same : k == key with
    | true =>
      have first : before key (k :: ks) = [] := List.takeWhile_cons_of_neg (by simp [same])
      simp [first, same]
    | false =>
      have goesOn : before key (k :: ks) = k :: before key ks :=
        List.takeWhile_cons_of_pos (by simp [same])
      have later : (∃ k' ∈ ks.filter (!· == k), (k' == key) = true) ↔
          ∃ k' ∈ ks, (k' == key) = true := by
        refine exists_congr fun k' => ?_
        rw [List.mem_filter]
        refine ⟨fun ⟨⟨hk', _⟩, equal⟩ => ⟨hk', equal⟩, fun ⟨hk', equal⟩ => ⟨⟨hk', ?_⟩, equal⟩⟩
        rw [Bool.not_eq_true', Bool.eq_false_iff]
        intro also
        rw [← BEq.congr_left also, equal] at same
        cases same
      rw [before_filter same, later] at ih
      simp only [List.mem_cons, or_and_right, exists_or, exists_eq_left, same, Bool.false_eq_true,
        false_or, ih, goesOn, List.eraseDups_cons, List.length_cons, Nat.add_lt_add_iff_right]
termination_by _ ks => ks.length
decreasing_by
  have := List.length_filter_le (!· == k) ks
  simp only [List.length_cons]
  omega

/-- Lists of keys that are equal one by one. -/
def Alike (ks ks' : List κ) : Prop := List.Forall₂ (fun k k' => (k == k') = true) ks ks'

namespace Alike

variable {ks ks' : List κ}

theorem exists_iff (alike : Alike ks ks') (key : κ) :
    (∃ k ∈ ks, (k == key) = true) ↔ ∃ k ∈ ks', (k == key) = true := by
  induction alike with
  | nil => exact Iff.rfl
  | cons same _ ih =>
    simp only [List.mem_cons, or_and_right, exists_or, exists_eq_left, ih, BEq.congr_left same]

omit [EquivBEq κ] in
theorem filter {p : κ → Bool} (respects : Respects p) (alike : Alike ks ks') :
    Alike (ks.filter p) (ks'.filter p) := by
  induction alike with
  | nil => exact .nil
  | @cons k k' ks ks' same _ ih =>
    cases holds : p k with
    | true =>
      have holds' : p k' = true := (respects k k' same).symm.trans holds
      rw [List.filter_cons_of_pos holds, List.filter_cons_of_pos holds']
      exact .cons same ih
    | false =>
      have fails : p k' = false := (respects k k' same).symm.trans holds
      rw [List.filter_cons_of_neg (by simp [holds]), List.filter_cons_of_neg (by simp [fails])]
      exact ih

end Alike

end Equivalence

end Distinct

end MorphEngine
