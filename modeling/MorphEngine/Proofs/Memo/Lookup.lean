import MorphEngine.Proofs.Dispatch
import MorphEngine.Proofs.Memo.Family

/-!
# One call through a cache

From sound caches a key is what an ideal host makes of it, a result that is found is what the call
means, and storing what the call means keeps the caches sound. So a call through a cache ends as the
run that it stands for.
-/

namespace MorphEngine

open Morph Engine

/-- Two values that are the same, and not one that has to be awaited. -/
def Plain (u v : Value) : Prop := u = v ∧ u.isAwaitable = false

theorem Plain.outcome_eq {r s : Except Fault Value} (alike : Alike Plain r s) : r = s := by
  cases alike with
  | ok same => rw [same.1]
  | error f => rfl

namespace Answers

variable {U : Type} {h : Host U} {a : Answers} {F : Morph → Prop}

/-- The worlds of a host with sound caches, beside all worlds of an ideal host. -/
def Beside (h : Host U) (a : Answers) (F : Morph → Prop) (w : World U)
    (_ : World (Except Fault Value)) : Prop := a.Sound h F w

theorem Gives.related {α : Type} {run : Engine U α} {r : Except Fault α}
    (gives : Gives (a.Sound h F) run r) :
    Related (Beside h a F) Eq run (Engine.ofExcept r : Engine (Except Fault Value) α) := by
  intro w x sound
  obtain ⟨ends, after⟩ := gives w sound
  refine ⟨?_, after⟩
  rw [ends, runFrom_ofExcept]
  cases r with
  | ok u => exact .ok rfl
  | error f => exact .error f

variable {m : Morph} {slot : CacheSlot} {w : World U}

theorem skip_related (family : a.Family h F) (hm : F m) (cached : m.head.cache = some slot) :
    Related (Beside h a F) Eq (modifyCache m.head.id MemoCache.skip)
      (modifyCache m.head.id MemoCache.skip) := by
  intro w x sound
  have keeps : (w.caches m.head.id).skip.Keeps (a.Explains h m slot) :=
    (sound m slot hm cached).within (MemoCache.count_within _ _)
  exact ⟨.ok rfl, Sound.update family sound hm cached keeps w.user⟩

/-- From sound caches a key is what an ideal host makes of it. -/
theorem cacheKey_gives (family : a.Family h F) (hm : F m) (input context : Value) :
    Gives (a.Sound h F) (cacheKey h m.head input context) (a.keyOf h.cells m input context) := by
  intro w sound
  have skips : m.head.cache.isSome = true →
      Related (Beside h a F) Eq (modifyCache m.head.id MemoCache.skip)
        (modifyCache m.head.id MemoCache.skip) := by
    intro some
    obtain ⟨slot, cached⟩ := Option.isSome_iff_exists.mp some
    exact skip_related family hm cached
  have related := cacheKey_related (k := a.host h.cells) (R := Beside h a F) rfl m.head
    (fun slot cached custom context => (family.selectors m slot hm cached custom context).related)
    skips input context
  obtain ⟨alike, after⟩ := related w start sound
  exact ⟨alike.eq, after⟩

/-- What is found under a key is what every call with that key means. -/
theorem cached_finds (family : a.Family h F) (hm : F m) (cached : m.head.cache = some slot)
    (sound : a.Sound h F w) (key : CacheKey) :
    ∃ found w', (Morph.cached h m.head (some key)).runFrom w = (.ok found, w') ∧
      a.Sound h F w' ∧ ∀ u, found = some u → ∀ input context,
        a.keyOf h.cells m input context = .ok (some key) →
          a.meaning h.cells m input context = .ok u := by
  obtain ⟨reads, judges⟩ := family.clocks m slot hm cached
  obtain ⟨now, reading⟩ := reads w
  have keeps := sound m slot hm cached
  have ran : (Morph.cached h m.head (some key)).runFrom w =
      (((w.caches m.head.id).lookup (judge h slot (.ok now)) key).1,
        ⟨fun i =>
          if i = m.head.id then ((w.caches m.head.id).lookup (judge h slot (.ok now)) key).2
          else w.caches i, w.user⟩) := by
    simp only [Morph.cached, cached, runFrom_onCache, reading]
  have after : a.Sound h F ((Morph.cached h m.head (some key)).runFrom w).2 := by
    rw [ran]
    exact Sound.update family sound hm cached (keeps.within (MemoCache.lookup_within _ _ _)) _
  have judged : ∀ e ∈ (w.caches m.head.id).entries,
      ∃ stale, judge h slot (.ok now) e.insertedAt = .ok stale := by
    intro e he
    obtain ⟨⟨w₀, inserted⟩, _⟩ := keeps.entries e he
    exact judges w w₀ now e.insertedAt reading inserted
  rw [ran] at after ⊢
  rcases MemoCache.lookup_isOk judged key with missed | ⟨e, he, under, hit⟩
  · exact ⟨none, _, by rw [missed], after, fun u found => by cases found⟩
  · refine ⟨some e.value, _, by rw [hit], after, ?_⟩
    intro u found input context keyed
    cases found
    refine (keeps.entries e he).2 input context ?_
    rw [under]
    exact keyed

/-- Storing what a call means under its key keeps the caches sound. -/
theorem remember_sound (family : a.Family h F) (hm : F m) (cached : m.head.cache = some slot)
    (sound : a.Sound h F w) {input context u : Value} {key : CacheKey}
    (keyed : a.keyOf h.cells m input context = .ok (some key))
    (means : a.meaning h.cells m input context = .ok u) :
    ∃ w', (remember h m.head (some key) u).runFrom w = (.ok (), w') ∧ a.Sound h F w' := by
  obtain ⟨now, reading⟩ := (family.clocks m slot hm cached).1 w
  have room : slot.rule.limit ≠ 0 := Nat.ne_of_gt (family.limits m slot hm cached)
  have ran : (remember h m.head (some key) u).runFrom w =
      (((w.caches m.head.id).store slot.rule.limit (.ok now) key u).1,
        ⟨fun i => if i = m.head.id then
          ((w.caches m.head.id).store slot.rule.limit (.ok now) key u).2 else w.caches i,
          w.user⟩) := by
    simp only [remember, cached, runFrom_onCache, reading]
  have explains : a.Explains h m slot key now u := by
    refine ⟨⟨w, reading⟩, fun input' context' keyed' => ?_⟩
    rcases family.respects m slot hm cached key input context input' context' keyed keyed'
      with ⟨v, here, there⟩ | ⟨f, g, here, _⟩
    · cases means.symm.trans here
      exact there
    · cases means.symm.trans here
  have counted := (sound m slot hm cached).within
    (MemoCache.count_within (fun n => { n with stores := n.stores + 1 }) (w.caches m.head.id))
  have stored := counted.put explains slot.rule.limit
  simp only [MemoCache.store, room, if_false] at ran
  exact ⟨_, ran, Sound.update family sound hm cached stored w.user⟩

/-- The outcome of the ideal run does not depend on where it starts. -/
theorem outcome_eq_start {run : Engine U Value} {n : Engine (Except Fault Value) Value}
    (runs : Related (Beside h a F) Plain run n) (sound : a.Sound h F w)
    (x : World (Except Fault Value)) : (n.runFrom x).1 = (n.runFrom start).1 :=
  (Plain.outcome_eq (runs w x sound).1).symm.trans (Plain.outcome_eq (runs w start sound).1)

/-- A call that the cache does not have the result of is run, and its result is stored. -/
theorem missed_agrees (family : a.Family h F) (hm : F m) (cached : m.head.cache = some slot)
    {input context : Value} {key : CacheKey}
    (keyed : a.keyOf h.cells m input context = .ok (some key)) {run : Engine U Value}
    {n : Engine (Except Fault Value) Value} (runs : Related (Beside h a F) Plain run n)
    (means : ∀ u, (n.runFrom start).1 = .ok u → a.meaning h.cells m input context = .ok u) :
    Related (Beside h a F) Plain
      (do
        let v ← run
        remember h m.head (some key) v
        return v) n := by
  intro w x sound
  have same := outcome_eq_start runs sound x
  obtain ⟨alike, after⟩ := runs w x sound
  rcases ended : run.runFrom w with ⟨f | u, w'⟩
  · rw [ended] at alike after
    rw [runFrom_bind_error ended]
    exact ⟨alike, after⟩
  · rw [ended] at alike after
    have made : (n.runFrom start).1 = .ok u := same.symm.trans (Plain.outcome_eq alike).symm
    obtain ⟨w'', stored, sound''⟩ := remember_sound family hm cached after keyed (means u made)
    rw [runFrom_bind_ok ended, runFrom_bind_ok stored]
    exact ⟨alike, sound''⟩

/-- A call through the cache ends as the run that it stands for, as long as that run makes of the
input what the member means. -/
theorem throughCache_agrees (family : a.Family h F) (hm : F m) {input context : Value}
    (keyEnds : a.KeyEnds h.cells m input context) {run : Engine U Value}
    {n : Engine (Except Fault Value) Value} (runs : Related (Beside h a F) Plain run n)
    (means : ∀ w, a.Sound h F w → ∀ u,
      (n.runFrom start).1 = .ok u ↔ a.meaning h.cells m input context = .ok u) :
    Related (Beside h a F) Plain (throughCache h m.head input context run) n := by
  cases cached : m.head.cache with
  | none =>
    rw [throughCache_eq_run h cached]
    exact runs
  | some slot =>
    intro w x sound
    obtain ⟨key, keyed⟩ := keyEnds (by rw [cached]; rfl)
    have keyRun := cacheKey_gives family hm input context w sound
    rw [keyed] at keyRun
    rcases ran : (cacheKey h m.head input context).runFrom w with ⟨r, w₁⟩
    rw [ran] at keyRun
    obtain ⟨rfl, sound₁⟩ := keyRun
    rw [throughCache, runFrom_bind_ok ran]
    cases key with
    | none =>
      have missed : Morph.cached h m.head none = pure none := by
        simp only [Morph.cached, cached]
      have forgotten (u : Value) : remember h m.head none u = pure () := by
        simp only [remember, cached]
      simp only [missed, forgotten, pure_bind, bind_pure]
      exact runs w₁ x sound₁
    | some key =>
      obtain ⟨found, w₂, looked, sound₂, finds⟩ := cached_finds family hm cached sound₁ key
      rw [runFrom_bind_ok looked]
      cases found with
      | some u =>
        have hit := (means w sound u).mpr (finds u rfl input context keyed)
        have alike := (runs w start sound).1
        have plain : u.isAwaitable = false := by
          rw [Plain.outcome_eq alike, hit] at alike
          cases alike with
          | ok agree => exact agree.2
        refine ⟨?_, sound₂⟩
        rw [outcome_eq_start runs sound x, hit]
        exact .ok ⟨rfl, plain⟩
      | none =>
        exact missed_agrees family hm cached keyed runs (fun u => (means w sound u).mp) w₂ x sound₂

end Answers

end MorphEngine
