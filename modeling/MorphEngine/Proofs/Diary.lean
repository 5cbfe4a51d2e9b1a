import MorphEngine.Proofs.Recording

/-!
# What functions answer in a run

A host with a diary answers as another host does and writes down every call of a function together
with its outcome. The diary changes nothing else and only grows, so what a run adds to it is what
was called in that run.
-/

namespace MorphEngine

/-- A call of a function, and how it ended. -/
structure Answered where
  fn : Value
  value : Value
  context : Value
  outcome : Except Fault Value

variable {U α β γ : Type}

namespace World

def withDiary (diary : List Answered) (w : World U) : World (U × List Answered) :=
  ⟨w.caches, (w.user, diary)⟩

def withoutDiary (w : World (U × List Answered)) : World U := ⟨w.caches, w.user.1⟩

def diary (w : World (U × List Answered)) : List Answered := w.user.2

end World

namespace Engine

/-- The computation of a host, with what it has come to written down. -/
def noted (note : Except Fault α → List Answered) (m : Engine U α) :
    Engine (U × List Answered) α :=
  ExceptT.mk fun w =>
    let (result, after) := m.run w.withoutDiary
    (result, after.withDiary (w.diary ++ note result))

theorem runFrom_noted (note : Except Fault α → List Answered) (m : Engine U α)
    (w : World (U × List Answered)) :
    (noted note m).runFrom w =
      ((m.runFrom w.withoutDiary).1,
        (m.runFrom w.withoutDiary).2.withDiary
          (w.diary ++ note (m.runFrom w.withoutDiary).1)) := rfl

end Engine

open Engine

namespace Host

def withDiary (h : Host U) : Host (U × List Answered) where
  cells := h.cells
  call fn v context :=
    Engine.noted (fun outcome => [⟨fn, v, context, outcome⟩]) (h.call fn v context)
  select fn context := Engine.noted (fun _ => []) (h.select fn context)
  await v := Engine.noted (fun _ => []) (h.await v)
  now clock w := h.now clock w.withoutDiary

theorem noted_erases (note : Except Fault α → List Answered) (m : Engine U α) :
    Related (fun w x => w = x.withoutDiary) Eq m (noted note m) := by
  rintro w x rfl
  rw [runFrom_noted]
  refine ⟨?_, rfl⟩
  rcases (m.runFrom x.withoutDiary).1 with f | a
  · exact .error f
  · exact .ok rfl

/-- A diary changes nothing. -/
theorem matches_withDiary (h : Host U) : h.Matches h.withDiary fun w x => w = x.withoutDiary where
  cells := rfl
  call _ _ _ := noted_erases _ _
  select _ _ := noted_erases _ _
  await _ := noted_erases _ _
  now := by
    rintro clock w x rfl
    rfl
  caches := by
    rintro w x rfl
    rfl
  update := by
    rintro w x caches rfl
    rfl

theorem noted_grows (start : List Answered) (note : Except Fault α → List Answered)
    (m : Engine U α) :
    Related (fun w x => w = x ∧ start <+: x.diary) Eq (noted note m) (noted note m) := by
  rintro w x ⟨rfl, grown⟩
  refine ⟨?_, rfl, ?_⟩
  · rcases ((noted note m).runFrom w).1 with f | a
    · exact .error f
    · exact .ok rfl
  · rw [runFrom_noted]
    exact grown.trans (List.prefix_append _ _)

/-- A diary is only ever added to. -/
theorem diary_grows (h : Host U) (start : List Answered) :
    h.withDiary.Matches h.withDiary fun w x => w = x ∧ start <+: x.diary where
  cells := rfl
  call _ _ _ := noted_grows start _ _
  select _ _ := noted_grows start _ _
  await _ := noted_grows start _ _
  now := by
    rintro clock w x ⟨rfl, grown⟩
    rfl
  caches := by
    rintro w x ⟨rfl, grown⟩
    rfl
  update := by
    rintro w x caches ⟨rfl, grown⟩
    exact ⟨rfl, grown⟩

end Host

/-- Between two worlds something was written down that a condition holds of. -/
def Since (E : Answered → Prop) (x x' : World (U × List Answered)) : Prop :=
  ∃ news, x'.diary = x.diary ++ news ∧ ∃ e ∈ news, E e

variable {E : Answered → Prop} {x x' x'' : World (U × List Answered)}

theorem Since.later (since : Since E x x') (grown : x'.diary <+: x''.diary) : Since E x x'' := by
  obtain ⟨news, written, e, among, holds⟩ := since
  obtain ⟨more, added⟩ := grown
  refine ⟨news ++ more, ?_, e, List.mem_append_left _ among, holds⟩
  rw [← added, written, List.append_assoc]

theorem Since.earlier (grown : x.diary <+: x'.diary) (since : Since E x' x'') : Since E x x'' := by
  obtain ⟨more, added⟩ := grown
  obtain ⟨news, written, e, among, holds⟩ := since
  refine ⟨more ++ news, ?_, e, List.mem_append_right _ among, holds⟩
  rw [written, ← added, List.append_assoc]

namespace Engine

/-- A computation only adds to the diary. -/
def Grows (m : Engine (U × List Answered) α) : Prop :=
  ∀ x, x.diary <+: (m.runFrom x).2.diary

/-- A computation that ends well has written down something that a condition holds of. -/
def Notes (E : Answered → Prop) (m : Engine (U × List Answered) α) : Prop :=
  ∀ x a x', m.runFrom x = (.ok a, x') → Since E x x'

theorem Grows.of_related {S : List Answered → α → α → Prop} {m : Engine (U × List Answered) α}
    (related : ∀ start, Related (fun w x => w = x ∧ start <+: x.diary) (S start) m m) : Grows m :=
  fun x => (related x.diary x x ⟨rfl, List.prefix_refl _⟩).2.2

variable {m : Engine (U × List Answered) α} {k : α → Engine (U × List Answered) β}

theorem Notes.bind_first (first : Notes E m) (next : ∀ a, Grows (k a)) : Notes E (m >>= k) := by
  intro x b x' ended
  obtain ⟨a, x₁, ran, ended⟩ := exists_of_run_bind_eq_ok ended
  have grown := next a x₁
  rw [show (k a).runFrom x₁ = (.ok b, x') from ended] at grown
  exact (first x a x₁ ran).later grown

theorem Notes.bind_next (first : Grows m) (next : ∀ a, Notes E (k a)) : Notes E (m >>= k) := by
  intro x b x' ended
  obtain ⟨a, x₁, ran, ended⟩ := exists_of_run_bind_eq_ok ended
  have grown := first x
  rw [show m.runFrom x = (.ok a, x₁) from ran] at grown
  exact .earlier grown (next a x₁ b x' ended)

theorem Notes.mapFault (notes : Notes E m) (g : Fault → Fault) : Notes E (mapFault g m) := by
  intro x a x' ended
  rw [runFrom_mapFault] at ended
  rcases ran : m.runFrom x with ⟨f | b, x₁⟩
  · rw [ran] at ended
    cases ended
  · rw [ran] at ended
    cases ended
    exact notes x _ _ ran

/-- A chain shows what one of its links notes. -/
theorem Notes.foldlM {f : β → γ → Engine (U × List Answered) β} {xs : List γ} {c : γ}
    (among : c ∈ xs) (grows : ∀ b c, Grows (f b c)) (notes : ∀ b, Notes E (f b c)) (b : β) :
    Notes E (xs.foldlM f b) := by
  have chain : ∀ (xs : List γ) (b : β), Grows (xs.foldlM f b) := by
    intro xs
    induction xs with
    | nil =>
      intro b x
      rw [List.foldlM_nil]
      exact List.prefix_refl _
    | cons d rest ih =>
      intro b x
      rw [List.foldlM_cons, runFrom_bind]
      have first := grows b d x
      rcases ran : (f b d).runFrom x with ⟨g | b', x₁⟩
      · rw [ran] at first
        exact first
      · rw [ran] at first
        exact first.trans (ih b' x₁)
  induction xs generalizing b with
  | nil => cases among
  | cons d rest ih =>
    rw [List.foldlM_cons]
    rcases List.mem_cons.mp among with rfl | among
    · exact (notes b).bind_first fun b' => chain rest b'
    · exact .bind_next (grows b d) fun b' => ih among b'

end Engine

end MorphEngine
