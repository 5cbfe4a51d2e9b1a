import MorphEngine.Catalog
import MorphEngine.Proofs.Names

/-!
# What an index lists

An index reflects which records carry which headings: it lists a record under a heading exactly when
the record carries it, and has no heading that no record carries. Filing and unfiling keep this up.
So the headings in order are the headings that are carried, each of them once.
-/

namespace MorphEngine

namespace Index

/-- Names in strictly ascending order whose texts are exactly those with a property. -/
structure Enumerates (names : List Name) (P : Text → Prop) : Prop where
  ascending : names.Pairwise fun a b => a.text.lt b.text = true
  texts : ∀ t, (∃ n ∈ names, n.text = t) ↔ P t

/-- An index lists a serial number under a heading just when the record of that number carries it. -/
structure Reflects (i : Index) (carries : Text → Nat → Prop) : Prop where
  distinct : i.Pairwise fun a b => a.heading.text ≠ b.heading.text
  filled : ∀ e ∈ i, e.serials ≠ []
  serials : ∀ t n, n ∈ i.serials t ↔ carries t n

variable {i : Index} {e : IndexEntry} {heading : Name} {serial n : Nat} {t : Text}

theorem reflects_nil : Reflects [] fun _ _ => False where
  distinct := .nil
  filled := fun e he => absurd he List.not_mem_nil
  serials := fun t n => by
    constructor
    · intro listed
      cases listed
    · exact False.elim

theorem Reflects.congr {carries carries' : Text → Nat → Prop} (reflects : i.Reflects carries)
    (same : ∀ t n, carries t n ↔ carries' t n) : i.Reflects carries' where
  distinct := reflects.distinct
  filled := reflects.filled
  serials t n := (reflects.serials t n).trans (same t n)

theorem serials_cons (e : IndexEntry) (i : Index) (t : Text) :
    serials (e :: i) t = if e.heading.text = t then e.serials else serials i t := by
  unfold serials
  rw [List.find?_cons]
  by_cases same : e.heading.text = t
  · simp only [same, decide_true, if_true, Option.elim]
  · simp only [same, decide_false, if_false]

/-- Under a heading that no entry has, nothing is listed. -/
theorem serials_eq_nil (absent : ∀ e ∈ i, e.heading.text ≠ t) : i.serials t = [] := by
  induction i with
  | nil => rfl
  | cons e rest ih =>
    rw [List.forall_mem_cons] at absent
    rw [serials_cons, if_neg absent.1]
    exact ih absent.2

/-! ### Filing -/

theorem heading_of_file (he : e ∈ file serial heading i) :
    e.heading.text = heading.text ∨ ∃ e₀ ∈ i, e₀.heading = e.heading := by
  induction i with
  | nil =>
    rw [file, List.mem_singleton] at he
    rw [he]
    exact Or.inl rfl
  | cons first rest ih =>
    rw [file] at he
    by_cases same : first.heading.text = heading.text
    · rw [if_pos same] at he
      rcases List.mem_cons.mp he with rfl | he
      · exact Or.inl same
      · exact Or.inr ⟨e, List.mem_cons_of_mem _ he, rfl⟩
    · rw [if_neg same] at he
      rcases List.mem_cons.mp he with rfl | he
      · exact Or.inr ⟨e, List.mem_cons_self, rfl⟩
      · rcases ih he with filed | ⟨e₀, he₀, kept⟩
        · exact Or.inl filed
        · exact Or.inr ⟨e₀, List.mem_cons_of_mem _ he₀, kept⟩

theorem file_distinct (distinct : i.Pairwise fun a b => a.heading.text ≠ b.heading.text) :
    (file serial heading i).Pairwise fun a b => a.heading.text ≠ b.heading.text := by
  induction i with
  | nil => exact List.pairwise_singleton _ _
  | cons first rest ih =>
    rw [List.pairwise_cons] at distinct
    rw [file]
    by_cases same : first.heading.text = heading.text
    · rw [if_pos same, List.pairwise_cons]
      exact distinct
    · rw [if_neg same, List.pairwise_cons]
      refine ⟨?_, ih distinct.2⟩
      intro e he
      rcases heading_of_file he with filed | ⟨e₀, he₀, kept⟩
      · rw [filed]
        exact same
      · rw [← kept]
        exact distinct.1 e₀ he₀

theorem file_filled (filled : ∀ e ∈ i, e.serials ≠ []) :
    ∀ e ∈ file serial heading i, e.serials ≠ [] := by
  induction i with
  | nil =>
    intro e he
    rw [file, List.mem_singleton] at he
    rw [he]
    exact List.cons_ne_nil _ _
  | cons first rest ih =>
    rw [List.forall_mem_cons] at filled
    rw [file]
    by_cases same : first.heading.text = heading.text
    · rw [if_pos same, List.forall_mem_cons]
      exact ⟨List.append_ne_nil_of_right_ne_nil _ (List.cons_ne_nil _ _), filled.2⟩
    · rw [if_neg same, List.forall_mem_cons]
      exact ⟨filled.1, ih filled.2⟩

theorem mem_serials_file :
    n ∈ (file serial heading i).serials t ↔ n ∈ i.serials t ∨ heading.text = t ∧ n = serial := by
  induction i with
  | nil =>
    rw [file, serials_cons]
    by_cases asked : heading.text = t
    · simp [asked, serials]
    · simp [asked, serials]
  | cons first rest ih =>
    rw [file]
    by_cases same : first.heading.text = heading.text
    · rw [if_pos same, serials_cons, serials_cons]
      by_cases asked : first.heading.text = t
      · have under : heading.text = t := same.symm.trans asked
        simp [asked, under]
      · have apart : heading.text ≠ t := fun under => asked (same.trans under)
        simp [asked, apart]
    · rw [if_neg same, serials_cons, serials_cons]
      by_cases asked : first.heading.text = t
      · have apart : heading.text ≠ t := fun under => same (asked.trans under.symm)
        simp [asked, apart]
      · rw [if_neg asked, if_neg asked]
        exact ih

/-- After filing a record under a heading, the record carries it too. -/
theorem Reflects.file {carries : Text → Nat → Prop} (reflects : i.Reflects carries)
    (serial : Nat) (heading : Name) :
    (i.file serial heading).Reflects fun t n => carries t n ∨ heading.text = t ∧ n = serial where
  distinct := file_distinct reflects.distinct
  filled := file_filled reflects.filled
  serials t n := by rw [mem_serials_file, reflects.serials]

/-! ### Unfiling -/

theorem heading_of_unfile (he : e ∈ unfile serial heading i) :
    ∃ e₀ ∈ i, e₀.heading = e.heading := by
  induction i with
  | nil => cases he
  | cons first rest ih =>
    have later (found : e ∈ rest) : ∃ e₀ ∈ first :: rest, e₀.heading = e.heading :=
      ⟨e, List.mem_cons_of_mem _ found, rfl⟩
    rw [unfile] at he
    by_cases same : first.heading.text = heading.text
    · rw [if_pos same] at he
      dsimp only at he
      split at he
      · exact later he
      · rcases List.mem_cons.mp he with rfl | he
        · exact ⟨first, List.mem_cons_self, rfl⟩
        · exact later he
    · rw [if_neg same] at he
      rcases List.mem_cons.mp he with rfl | he
      · exact ⟨e, List.mem_cons_self, rfl⟩
      · obtain ⟨e₀, he₀, kept⟩ := ih he
        exact ⟨e₀, List.mem_cons_of_mem _ he₀, kept⟩

theorem unfile_distinct (distinct : i.Pairwise fun a b => a.heading.text ≠ b.heading.text) :
    (unfile serial heading i).Pairwise fun a b => a.heading.text ≠ b.heading.text := by
  induction i with
  | nil => exact .nil
  | cons first rest ih =>
    rw [List.pairwise_cons] at distinct
    rw [unfile]
    by_cases same : first.heading.text = heading.text
    · rw [if_pos same]
      dsimp only
      split
      · exact distinct.2
      · exact List.pairwise_cons.mpr distinct
    · rw [if_neg same, List.pairwise_cons]
      refine ⟨?_, ih distinct.2⟩
      intro e he
      obtain ⟨e₀, he₀, kept⟩ := heading_of_unfile he
      rw [← kept]
      exact distinct.1 e₀ he₀

/-- No heading is left without records. -/
theorem unfile_filled (filled : ∀ e ∈ i, e.serials ≠ []) :
    ∀ e ∈ unfile serial heading i, e.serials ≠ [] := by
  induction i with
  | nil => exact filled
  | cons first rest ih =>
    rw [List.forall_mem_cons] at filled
    rw [unfile]
    by_cases same : first.heading.text = heading.text
    · rw [if_pos same]
      dsimp only
      split
      · exact filled.2
      · next left =>
        rw [List.forall_mem_cons]
        refine ⟨fun none => left ?_, filled.2⟩
        rw [List.isEmpty_iff]
        exact none
    · rw [if_neg same, List.forall_mem_cons]
      exact ⟨filled.1, ih filled.2⟩

theorem mem_serials_unfile (distinct : i.Pairwise fun a b => a.heading.text ≠ b.heading.text) :
    n ∈ (unfile serial heading i).serials t ↔ n ∈ i.serials t ∧ ¬ (heading.text = t ∧ n = serial) := by
  induction i with
  | nil =>
    constructor
    · intro listed
      cases listed
    · rintro ⟨listed, _⟩
      cases listed
  | cons first rest ih =>
    rw [List.pairwise_cons] at distinct
    rw [unfile]
    by_cases same : first.heading.text = heading.text
    · rw [if_pos same]
      dsimp only
      have elsewhere : serials rest first.heading.text = [] :=
        serials_eq_nil fun e he => (distinct.1 e he).symm
      by_cases asked : first.heading.text = t
      · have under : heading.text = t := same.symm.trans asked
        have left : n ∈ first.serials.filter (· != serial) ↔
            n ∈ first.serials ∧ ¬ (heading.text = t ∧ n = serial) := by
          rw [List.mem_filter, bne_iff_ne]
          simp only [under, true_and]
        rw [serials_cons, if_pos asked]
        split
        · next none =>
          rw [List.isEmpty_iff] at none
          rw [none] at left
          rw [← asked, elsewhere, asked]
          exact left
        · rw [serials_cons, if_pos asked]
          exact left
      · have apart : ¬ (heading.text = t ∧ n = serial) := fun under => asked (same.trans under.1)
        rw [serials_cons, if_neg asked]
        split
        · simp only [apart, not_false_iff, and_true]
        · rw [serials_cons, if_neg asked]
          simp only [apart, not_false_iff, and_true]
    · rw [if_neg same, serials_cons, serials_cons]
      by_cases asked : first.heading.text = t
      · have apart : ¬ (heading.text = t ∧ n = serial) := fun under =>
          same (asked.trans under.1.symm)
        rw [if_pos asked, if_pos asked]
        simp only [apart, not_false_iff, and_true]
      · rw [if_neg asked, if_neg asked]
        exact ih distinct.2

/-- After unfiling a record from under a heading, the record no longer carries it. -/
theorem Reflects.unfile {carries : Text → Nat → Prop} (reflects : i.Reflects carries)
    (serial : Nat) (heading : Name) :
    (i.unfile serial heading).Reflects fun t n =>
      carries t n ∧ ¬ (heading.text = t ∧ n = serial) where
  distinct := unfile_distinct reflects.distinct
  filled := unfile_filled reflects.filled
  serials t n := by rw [mem_serials_unfile reflects.distinct, reflects.serials]

/-! ### Several headings at once -/

theorem Reflects.fileAll {carries : Text → Nat → Prop} (reflects : i.Reflects carries)
    (serial : Nat) (headings : List Name) :
    (headings.foldl (fun i h => Index.file serial h i) i).Reflects fun t n =>
      carries t n ∨ (∃ h ∈ headings, h.text = t) ∧ n = serial := by
  induction headings generalizing i carries with
  | nil => exact reflects.congr fun t n => by simp
  | cons h rest ih =>
    refine (ih (reflects.file serial h)).congr fun t n => ?_
    simp only [List.mem_cons, or_and_right, exists_or, exists_eq_left, or_assoc]

theorem Reflects.unfileAll {carries : Text → Nat → Prop} (reflects : i.Reflects carries)
    (serial : Nat) (headings : List Name) :
    (headings.foldl (fun i h => Index.unfile serial h i) i).Reflects fun t n =>
      carries t n ∧ ¬ ((∃ h ∈ headings, h.text = t) ∧ n = serial) := by
  induction headings generalizing i carries with
  | nil => exact reflects.congr fun t n => by simp
  | cons h rest ih =>
    refine (ih (reflects.unfile serial h)).congr fun t n => ?_
    simp only [List.mem_cons, or_and_right, exists_or, exists_eq_left, not_or, and_assoc]

/-! ### The headings -/

/-- What is listed under a heading is what stands in its entry. -/
theorem mem_serials_iff (distinct : i.Pairwise fun a b => a.heading.text ≠ b.heading.text) :
    n ∈ i.serials t ↔ ∃ e ∈ i, e.heading.text = t ∧ n ∈ e.serials := by
  induction i with
  | nil => simp [serials]
  | cons first rest ih =>
    rw [List.pairwise_cons] at distinct
    rw [serials_cons]
    by_cases asked : first.heading.text = t
    · rw [if_pos asked]
      constructor
      · intro listed
        exact ⟨first, List.mem_cons_self, asked, listed⟩
      · rintro ⟨e, he, under, listed⟩
        rcases List.mem_cons.mp he with rfl | later
        · exact listed
        · exact absurd (asked.trans under.symm) (distinct.1 e later)
    · rw [if_neg asked, ih distinct.2]
      simp only [List.mem_cons, exists_eq_or_imp, asked, false_and, false_or]

/-- The headings in order are the texts that some record carries. -/
theorem Reflects.enumerates {carries : Text → Nat → Prop} (reflects : i.Reflects carries) :
    Enumerates i.headings fun t => ∃ n, carries t n where
  ascending := by
    refine Name.sort_ascending ?_
    rw [List.pairwise_map]
    exact reflects.distinct
  texts t := by
    constructor
    · rintro ⟨heading, listed, rfl⟩
      obtain ⟨e, he, rfl⟩ := List.mem_map.mp (Name.mem_sort.mp listed)
      obtain ⟨n, hn⟩ := List.exists_mem_of_ne_nil e.serials (reflects.filled e he)
      have under : n ∈ i.serials e.heading.text :=
        (mem_serials_iff reflects.distinct).mpr ⟨e, he, rfl, hn⟩
      exact ⟨n, (reflects.serials _ n).mp under⟩
    · rintro ⟨n, carried⟩
      have listed : n ∈ i.serials t := (reflects.serials t n).mpr carried
      obtain ⟨e, he, under, _⟩ := (mem_serials_iff reflects.distinct).mp listed
      exact ⟨e.heading, Name.mem_sort.mpr (List.mem_map_of_mem he), under⟩

end Index

end MorphEngine
