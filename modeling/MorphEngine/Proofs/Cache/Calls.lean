import MorphEngine.Proofs.Cache.Accounts
import MorphEngine.Proofs.Cache.Latest
import MorphEngine.Proofs.Journal
import MorphEngine.Proofs.Keys.Uncached

/-!
# Counters account for calls

A morph that is backed by a function answers calls from its cache, or runs its function. A run can
call the morph again before it ends, and can fail; in between the cache is swept and emptied. The
counters of the cache agree with the journal of all that: with its calls, with its runs of the
function, and with those of them that ended with a value after a miss.
-/

namespace MorphEngine

open MemoCache Engine Journal

variable {U α β : Type}

/-- A whole number that bounds a cache is its limit. -/
theorem CacheRule.limit_of_int {n : Int} {limit : Nat}
    (read : CacheRule.readLimit (.int n) = .ok limit) : (limit : Int) = n := by
  have compared : Value.relates [] .less (.int n) (.int 0) = .ok ((Number.int n).lt (.int 0)) :=
    relates_ofNumber [] .less (.int n) (.int 0)
  have less : (Number.int n).lt (.int 0) = decide (n < 0) := by
    rw [Bool.eq_iff_iff]
    simp [Number.lt, Number.order?, Number.toExact?, Number.Exact.order, Int.compare_eq_lt]
  have limits : CacheRule.limitOf (.int n) = .ok n.toNat := rfl
  rw [readLimit, compared, less] at read
  by_cases negative : n < 0
  · rw [decide_eq_true negative] at read
    cases read
  · rw [decide_eq_false negative] at read
    cases limits.symm.trans read
    omega

/-- The account says of calls and runs what the journal shows. -/
structure MemoCache.Tally.Of (t : Tally) (entries : List Entry) : Prop where
  keyed : t.keyed = occurrences Entry.isKeyed entries
  invoked : t.invoked = occurrences Entry.isInvocation entries
  returned : t.returned = occurrences Entry.isValuedMiss entries

/-- A run of the function by itself, apart from the call that it is for. -/
def MemoCache.Tally.run : Tally := ⟨0, 1, 0, 0⟩

theorem MemoCache.Tally.of_nil : (0 : Tally).Of [] := ⟨rfl, rfl, rfl⟩

theorem MemoCache.Tally.Of.append {s t : Tally} {entries entries' : List Entry} (first : s.Of entries)
    (second : t.Of entries') : (s + t).Of (entries ++ entries') := by
  constructor
  · rw [Tally.keyed_add, occurrences_append, first.keyed, second.keyed]
  · rw [Tally.invoked_add, occurrences_append, first.invoked, second.invoked]
  · rw [Tally.returned_add, occurrences_append, first.returned, second.returned]

/-- The clock of a cache can always be read, and two of its readings can be judged by, as numbers can.
It may stand still, jump and run backwards. -/
structure Code.KeepsTime (code : Code U) (slot : CacheSlot) (T : Value → Prop) : Prop where
  reads : ∀ w, ∃ t, code.now slot.clock w = .ok t ∧ T t
  judges : ∀ now storedAt, T now → T storedAt →
    ∃ stale, CacheRule.isStale code.cells slot.rule.ttl now storedAt = .ok stale

/-- Every floating-point clock keeps time, whatever number the time to live is. -/
theorem Code.keepsTime_of_real {code : Code U} {slot : CacheSlot}
    (number : slot.rule.ttl = .none ∨ (∃ z, slot.rule.ttl = .real z) ∨ ∃ n, slot.rule.ttl = .int n)
    (reads : ∀ w, ∃ x, code.now slot.clock w = .ok (.real x)) :
    code.KeepsTime slot fun v => ∃ x, v = .real x where
  reads w := by
    obtain ⟨x, reading⟩ := reads w
    exact ⟨.real x, reading, x, rfl⟩
  judges := by
    rintro _ _ ⟨x, rfl⟩ ⟨y, rfl⟩
    exact Answers.isStale_isOk number x y

namespace Morph

/-! ### What becomes of a cache -/

/-- How a cache comes to hold what it does, with an account of what went on. -/
structure Moves (code : Code U) (slot : CacheSlot) (T : Value → Prop) (c d : ResultCache)
    (t : Tally) : Prop where
  accounts : Accounts c d t
  orderly : c.Orderly slot.rule.limit → d.Orderly slot.rule.limit
  timed : code.KeepsTime slot T → c.Keeps (fun _ storedAt _ => T storedAt) →
    d.Keeps (fun _ storedAt _ => T storedAt) ∧ t.undecided = 0

namespace Moves

variable {code : Code U} {slot : CacheSlot} {T : Value → Prop} {b c d : ResultCache} {s t : Tally}

theorem refl (c : ResultCache) : Moves code slot T c c 0 where
  accounts := .of_counters c.counters.expired rfl
  orderly same := same
  timed _ timed := ⟨timed, rfl⟩

theorem trans (first : Moves code slot T b c s) (second : Moves code slot T c d t) :
    Moves code slot T b d (s + t) where
  accounts := first.accounts.trans second.accounts
  orderly orderly := second.orderly (first.orderly orderly)
  timed clock timed := by
    obtain ⟨timed, decided⟩ := first.timed clock timed
    obtain ⟨timed, decided'⟩ := second.timed clock timed
    exact ⟨timed, by rw [Tally.undecided_add, decided, decided']⟩

theorem skip (c : ResultCache) : Moves code slot T c c.skip .invocation where
  accounts := skip_accounts c
  orderly := .skip
  timed _ timed := ⟨timed.within (count_within _ c), rfl⟩

theorem clear (c : ResultCache) : Moves code slot T c c.clear 0 where
  accounts := .of_counters c.counters.expired rfl
  orderly := .clear
  timed _ timed := ⟨timed.within (clear_within c), rfl⟩

theorem sweep (isStale : Value → Except Fault Bool) (c : ResultCache) :
    Moves code slot T c (c.sweep isStale).2 0 where
  accounts := sweep_accounts isStale c
  orderly orderly := orderly.sweep isStale
  timed _ timed := ⟨timed.within (sweep_within isStale c), rfl⟩

variable {ask : Errand → Engine (U × List Entry) (Option Value)}

theorem lookup (w : World (U × List Entry)) (key : CacheKey) (c : ResultCache) :
    Moves code slot T c
      (c.lookup (judge (code.host ask) slot ((code.host ask).now slot.clock w)) key).2
      (.ofLookup (c.lookup (judge (code.host ask) slot ((code.host ask).now slot.clock w)) key).1) where
  accounts := lookup_accounts _ key c
  orderly orderly := orderly.lookup _ key
  timed clock timed := by
    refine ⟨timed.within (lookup_within _ key c), ?_⟩
    obtain ⟨now, reading, time⟩ := clock.reads w.withoutJournal
    have read : (code.host ask).now slot.clock w = .ok now := reading
    have judged : ∀ e ∈ c.entries, ∃ stale,
        judge (code.host ask) slot ((code.host ask).now slot.clock w) e.insertedAt = .ok stale := by
      intro e he
      obtain ⟨stale, judges⟩ := clock.judges now e.insertedAt time (timed.entries e he)
      refine ⟨stale, ?_⟩
      rw [judge, read]
      exact judges
    rcases lookup_isOk judged key with missed | ⟨e, _, _, hit⟩
    · rw [missed]
      rfl
    · rw [hit]
      rfl

theorem store (w : World (U × List Entry)) (key : CacheKey) (v : Value) (c : ResultCache) :
    Moves code slot T c
      (c.store slot.rule.limit ((code.host ask).now slot.clock w) key v).2 .value where
  accounts := store_accounts _ _ key v c
  orderly orderly := orderly.store _ key v
  timed clock timed := by
    refine ⟨timed.store slot.rule.limit fun t read => ?_, rfl⟩
    obtain ⟨now, reading, time⟩ := clock.reads w.withoutJournal
    cases reading.symm.trans read
    exact time

end Moves

/-! ### What is added to the journal -/

section Added

variable (code : Code U) (slot : CacheSlot) (T : Value → Prop) (id : Nat)

/-- From a world to the one that a computation leaves, entries are added to the journal, and a cache
moves on with an account; they are related to each other and to the outcome. -/
def Adds (S : Except Fault α → List Entry → Tally → Prop) (w : World (U × List Entry))
    (out : Except Fault α × World (U × List Entry)) : Prop :=
  ∃ news t, out.2.journal = w.journal ++ news ∧ S out.1 news t ∧
    Moves code slot T (w.caches id) (out.2.caches id) t

/-- Calls are added to the journal, which account for what becomes of the cache but for something
more. -/
def CallsAnd (more : Tally) (_ : Except Fault α) (news : List Entry) (t : Tally) : Prop :=
  ∃ s, (∀ e ∈ news, e.isCall = true) ∧ s.Of news ∧ t = s + more

/-- A computation adds to the journal what accounts for what it does to a cache, and no run of the
function but within the calls that it makes. -/
def Calls (m : Engine (U × List Entry) α) : Prop :=
  ∀ w, Adds code slot T id (CallsAnd 0) w (m.runFrom w)

end Added

section Rules

variable {code : Code U} {slot : CacheSlot} {T : Value → Prop} {id : Nat}
  {S : Except Fault α → List Entry → Tally → Prop} {w w' : World (U × List Entry)}

theorem Adds.of_moves {r : Except Fault α} {t : Tally}
    (moves : Moves code slot T (w.caches id) (w'.caches id) t) (same : w'.journal = w.journal)
    (shows : S r [] t) : Adds code slot T id S w (r, w') :=
  ⟨[], t, by rw [same, List.append_nil], shows, moves⟩

theorem Adds.trans {S' S'' : Except Fault β → List Entry → Tally → Prop} {r : Except Fault α}
    {out : Except Fault β × World (U × List Entry)} (first : Adds code slot T id S w (r, w'))
    (second : Adds code slot T id S' w' out)
    (joins : ∀ news t news' t', S r news t → S' out.1 news' t' →
      S'' out.1 (news ++ news') (t + t')) : Adds code slot T id S'' w out := by
  obtain ⟨news, t, grown, shows, moves⟩ := first
  obtain ⟨news', t', grown', shows', moves'⟩ := second
  refine ⟨news ++ news', t + t', ?_, joins news t news' t' shows shows', moves.trans moves'⟩
  rw [grown', grown, List.append_assoc]

/-- What is related may be weakened, and the outcome is free to change. -/
theorem Adds.imp {S' : Except Fault β → List Entry → Tally → Prop} {r : Except Fault α}
    {r' : Except Fault β} (adds : Adds code slot T id S w (r, w'))
    (weaker : ∀ news t, S r news t → S' r' news t) : Adds code slot T id S' w (r', w') := by
  obtain ⟨news, t, grown, shows, moves⟩ := adds
  exact ⟨news, t, grown, weaker news t shows, moves⟩

theorem Adds.map {S' : Except Fault β → List Entry → Tally → Prop} {m : Engine (U × List Entry) α}
    (adds : Adds code slot T id S w (m.runFrom w)) {g : α → β}
    (weaker : ∀ r news t, S r news t → S' (r.map g) news t) :
    Adds code slot T id S' w ((g <$> m).runFrom w) := by
  rw [runFrom_map]
  exact adds.imp (weaker _)

/-- A computation that is entered in the journal adds one entry. -/
theorem Adds.journaled {S' : Except Fault α → List Entry → Tally → Prop} {m : Engine (U × List Entry) α}
    {entry : World (U × List Entry) → Except Fault α → List Entry → Entry}
    (adds : Adds code slot T id S (w.withJournal []) (m.runFrom (w.withJournal [])))
    (shows : ∀ r within t, S r within t → S' r [entry (w.withJournal []) r within] t) :
    Adds code slot T id S' w ((Engine.journaled entry m).runFrom w) := by
  obtain ⟨news, t, grown, holds, moves⟩ := adds
  rw [runFrom_journaled]
  refine ⟨_, t, rfl, ?_, moves⟩
  have within : (m.runFrom (w.withJournal [])).2.journal = news := grown
  rw [within]
  exact shows _ news t holds

/-- The cache moves on after calls, while nothing is added to the journal. -/
theorem Adds.more {S' : Except Fault β → List Entry → Tally → Prop} {r : Except Fault α}
    {r' : Except Fault β} {w'' : World (U × List Entry)} {more : Tally}
    (before : Adds code slot T id (CallsAnd 0) w (r, w'))
    (moves : Moves code slot T (w'.caches id) (w''.caches id) more)
    (same : w''.journal = w'.journal)
    (shows : ∀ news t, CallsAnd more r news t → S' r' news t) :
    Adds code slot T id S' w (r', w'') := by
  obtain ⟨news, _, grown, ⟨s, calls, of, rfl⟩, moved⟩ := before
  exact ⟨news, s + more, same.trans grown, shows _ _ ⟨s, calls, of, rfl⟩, moved.trans moves⟩

/-- Neither calls nor runs stand behind what becomes of the cache. -/
theorem Calls.of_silent {m : Engine (U × List Entry) α}
    (silent : ∀ w, (m.runFrom w).2.journal = w.journal ∧
      Moves code slot T (w.caches id) ((m.runFrom w).2.caches id) 0) :
    Calls code slot T id m :=
  fun w => .of_moves (silent w).2 (silent w).1 ⟨0, nofun, Tally.of_nil, rfl⟩

theorem Calls.of_kept {m : Engine (U × List Entry) α} (kept : ∀ w, (m.runFrom w).2 = w) :
    Calls code slot T id m := by
  refine .of_silent fun w => ?_
  rw [kept]
  exact ⟨rfl, .refl _⟩

theorem Calls.map {m : Engine (U × List Entry) α} (calls : Calls code slot T id m) (g : α → β) :
    Calls code slot T id (g <$> m) :=
  fun w => (calls w).map fun _ _ _ shows => shows

/-- Whatever follows upon an outcome, calls only are added after calls. -/
theorem Calls.after {m : Engine (U × List Entry) α} {n : Engine (U × List Entry) β}
    (first : Calls code slot T id m) (second : Calls code slot T id n) (w : World (U × List Entry)) :
    Adds code slot T id (CallsAnd 0) w (n.runFrom (m.runFrom w).2) := by
  refine Adds.trans (first w) (second _) ?_
  rintro news _ news' _ ⟨s, calls, shows, rfl⟩ ⟨s', calls', shows', rfl⟩
  refine ⟨s + s', fun e he => ?_, shows.append shows', rfl⟩
  rcases List.mem_append.mp he with he | he
  · exact calls e he
  · exact calls' e he

theorem Calls.bind {m : Engine (U × List Entry) α} {k : α → Engine (U × List Entry) β}
    (first : Calls code slot T id m) (next : ∀ a, Calls code slot T id (k a)) :
    Calls code slot T id (m >>= k) := by
  intro w
  have added := first w
  have both := fun a => first.after (next a) w
  rw [runFrom_bind]
  rcases ran : m.runFrom w with ⟨f | a, w₁⟩
  · rw [ran] at added
    exact added.imp fun _ _ shows => shows
  · have both := both a
    rw [ran] at both
    exact both

theorem Calls.orElse {m : Engine (U × List Entry) α} {handle : Fault → Engine (U × List Entry) α}
    (first : Calls code slot T id m) (next : ∀ f, Calls code slot T id (handle f)) :
    Calls code slot T id (m.orElse handle) := by
  intro w
  have added := first w
  have both := fun f => first.after (next f) w
  rw [runFrom_orElse]
  rcases ran : m.runFrom w with ⟨f | a, w₁⟩
  · have both := both f
    rw [ran] at both
    exact both
  · rw [ran] at added
    exact added

end Rules

/-! ### Runs of the function -/

/-- The run of the function for a call. -/
def invocation (h : Host U) (head : Header) (fn : Value) (awaits : Bool) (v context : Value) :
    Engine U Value :=
  let transformed := transform h (.simple head fn) v context
  if awaits then awaitOnce h head.name context transformed
  else callOnce head head.name context transformed

/-- A run of the function for a call ends well when the journal says so, and is itself one more run
than it accounts for. -/
def Ran (awaits : Bool) (r : Except Fault Value) (news : List Entry) (t : Tally) : Prop :=
  (Tally.run + t).Of news ∧ Entry.ranWell awaits news = r.isOk

theorem isOk_mapError (g : Fault → Fault) (r : Except Fault Value) :
    (r.mapError g).isOk = r.isOk := by
  cases r <;> rfl

theorem run_of_invocation {r : Except Fault Value} {within : List Entry} {t : Tally}
    (shows : t.Of within) : (Tally.run + t).Of [.invocation r within] := by
  constructor
  · rw [Tally.keyed_add, occurrences_single, shows.keyed]
    rfl
  · rw [Tally.invoked_add, occurrences_single, shows.invoked]
    rfl
  · rw [Tally.returned_add, occurrences_single, shows.returned]
    rfl

theorem of_awaiting {r : Except Fault Value} {within : List Entry} {t : Tally}
    (shows : t.Of within) : t.Of [.awaiting r within] := by
  constructor <;> rw [occurrences_single]
  · exact shows.keyed.trans (Nat.zero_add _).symm
  · exact shows.invoked.trans (Nat.zero_add _).symm
  · exact shows.returned.trans (Nat.zero_add _).symm

/-! ### Entries of calls -/

/-- What goes on within a call, which accounts for the call with it. -/
def InCall (awaits : Bool) (key : Except Fault (Option CacheKey)) (_ : Except Fault α)
    (within : List Entry) (t : Tally) : Prop :=
  t.Of [.call awaits key within]

/-- A call for which no key can be looked for in the end. -/
theorem of_keyless {before : List Entry} {s : Tally} (shows : s.Of before) (awaits : Bool)
    (f : Fault) : s.Of [.call awaits (.error f) before] := by
  constructor <;> rw [occurrences_single]
  · exact shows.keyed.trans (Nat.zero_add _).symm
  · exact shows.invoked.trans (Nat.zero_add _).symm
  · exact shows.returned.trans (Nat.zero_add _).symm

/-- A call that is answered from the cache, or by the fault of asking the cache. -/
theorem of_answered {before : List Entry} {s : Tally} (calls : ∀ e ∈ before, e.isCall = true)
    (shows : s.Of before) (awaits : Bool) (key : CacheKey) (undecided : Nat) :
    (s + ⟨1, 0, 0, undecided⟩).Of [.call awaits (.ok (some key)) before] := by
  constructor <;> rw [occurrences_single]
  · rw [Tally.keyed_add, shows.keyed]
    exact Nat.add_comm _ _
  · rw [Tally.invoked_add, shows.invoked]
    exact Nat.add_comm _ _
  · rw [Tally.returned_add, shows.returned]
    simp [Entry.isValuedMiss, Entry.within, Entry.ranWell_of_calls calls]

/-- On the direct path what is awaited after a call makes no difference to it. -/
theorem of_settled {key : Except Fault (Option CacheKey)} {news within : List Entry} {s t : Tally}
    {r : Except Fault Value} (shows : s.Of [.call false key news]) (awaited : t.Of within) :
    (s + t).Of [.call false key (news ++ [.awaiting r within])] := by
  have grown (kind : Entry → Bool) (same : kind (.call false key (news ++ [.awaiting r within])) =
      kind (.call false key news)) :
      occurrences kind [.call false key (news ++ [.awaiting r within])] =
        occurrences kind [.call false key news] + occurrences kind [.awaiting r within] := by
    rw [occurrences_single kind (.call false key (news ++ _)), same, Entry.within,
      occurrences_append, ← Nat.add_assoc, occurrences_single kind (.call false key news),
      Entry.within]
  have later : t.Of [.awaiting r within] := of_awaiting awaited
  constructor
  · rw [grown _ rfl, Tally.keyed_add, shows.keyed, later.keyed]
  · rw [grown _ rfl, Tally.invoked_add, shows.invoked, later.invoked]
  · rw [grown, Tally.returned_add, shows.returned, later.returned]
    cases key with
    | error f => rfl
    | ok key =>
      cases key with
      | none => rfl
      | some key => exact Entry.ranWell_direct_append news r within

/-- A call that runs the function. A result that comes of it is stored when there is a key. -/
theorem of_ran {before own : List Entry} {s t : Tally} {awaits : Bool} {r : Except Fault Value}
    (calls : ∀ e ∈ before, e.isCall = true) (shows : s.Of before) (ran : Ran awaits r own t)
    (key : Option CacheKey) :
    (s + .invocation + t + if key.isSome && r.isOk then .value else 0).Of
      [.call awaits (.ok key) (before ++ own)] := by
  obtain ⟨⟨keyed, invoked, returned⟩, well⟩ := ran
  rw [← Entry.ranWell_append calls] at well
  rw [Tally.keyed_add] at keyed
  rw [Tally.invoked_add] at invoked
  rw [Tally.returned_add] at returned
  have stores : (if key.isSome && r.isOk then Tally.value else 0).returned =
      if Entry.isValuedMiss (.call awaits (.ok key) (before ++ own)) then 1 else 0 := by
    cases key with
    | none => rfl
    | some k =>
      rw [Entry.isValuedMiss, well]
      cases r.isOk <;> rfl
  have silent : (if key.isSome && r.isOk then Tally.value else 0).keyed = 0 ∧
      (if key.isSome && r.isOk then Tally.value else 0).invoked = 0 := by
    split <;> exact ⟨rfl, rfl⟩
  generalize (if key.isSome && r.isOk then Tally.value else 0) = stored at stores silent ⊢
  have isKeyed : Entry.isKeyed (.call awaits (.ok key) (before ++ own)) = true := rfl
  have notInvocation : Entry.isInvocation (.call awaits (.ok key) (before ++ own)) = false := rfl
  constructor <;> rw [occurrences_single, Entry.within, occurrences_append]
  · simp only [Tally.keyed_add, shows.keyed, silent.1, isKeyed, if_true, ← keyed, Tally.invocation,
      Tally.run]
    omega
  · simp only [Tally.invoked_add, shows.invoked, silent.2, notInvocation, Bool.false_eq_true,
      if_false, ← invoked, Tally.invocation, Tally.run]
    omega
  · simp only [Tally.returned_add, shows.returned, stores, ← returned, Tally.invocation, Tally.run]
    omega

/-! ### User code -/

section Code

variable {code : Code U} {slot : CacheSlot} {T : Value → Prop} {id : Nat}
  {ask : Errand → Engine (U × List Entry) (Option Value)}

/-- A script adds calls, if its errands do. -/
theorem script_calls (asks : ∀ e, Calls code slot T id (ask e)) (script : Script U) :
    Calls code slot T id (script.run ask) := by
  induction script with
  | ends outcome => exact .of_kept fun _ => rfl
  | recalls next ih =>
    intro w
    exact ih w.user.1 w
  | keeps state next ih =>
    intro w
    exact ih ⟨w.caches, (state, w.journal)⟩
  | asks errand next ih =>
    intro w
    exact (asks errand).after (ih ((ask errand).runFrom w).1) w

variable (asks : ∀ e, Calls code slot T id (ask e)) (w : World (U × List Entry))
include asks

theorem call_adds (fn v context : Value) :
    Adds code slot T id (fun r news t => ∃ within, news = [.invocation r within] ∧ t.Of within) w
      (((code.host ask).call fn v context).runFrom w) := by
  have ran := script_calls asks (code.call fn v context) (w.withJournal [])
  simp only [Code.host]
  exact ran.journaled fun _ within _ ⟨_, _, shows, same⟩ => ⟨within, rfl, same ▸ shows⟩

theorem await_adds (v : Value) :
    Adds code slot T id (fun r news t => ∃ within, news = [.awaiting r within] ∧ t.Of within) w
      (((code.host ask).await v).runFrom w) := by
  have ran := script_calls asks (code.await v) (w.withJournal [])
  simp only [Code.host]
  exact ran.journaled fun _ within _ ⟨_, _, shows, same⟩ => ⟨within, rfl, same ▸ shows⟩

theorem project_calls (p : ContextProjection) (context : Value) :
    Calls code slot T id (project (code.host ask) p context) := by
  unfold project
  split
  · exact .of_kept fun _ => rfl
  · exact .of_kept fun _ => rfl
  · exact script_calls asks _
  · exact .bind (.of_kept fun _ => rfl) fun _ => .of_kept fun _ => rfl

theorem fingerprints_calls (p : ContextProjection) (v context : Value) :
    Calls code slot T id
      (fingerprints (code.host ask) v (project (code.host ask) p context)) := by
  refine .orElse (.bind (.of_kept fun _ => rfl) fun a => ?_) fun f => ?_
  · exact .bind (project_calls asks p context) fun part =>
      .bind (.of_kept fun _ => rfl) fun b => .of_kept fun _ => rfl
  · split
    · exact .of_kept fun _ => rfl
    · exact .of_kept fun _ => rfl

/-- On the direct path what the function returns is the result, unless it would have to be awaited. -/
theorem callOnce_adds (head : Header) (fn v context : Value) :
    Adds code slot T id (Ran false) w
      ((callOnce head head.name context
        (transform (code.host ask) (.simple head fn) v context)).runFrom w) := by
  have called := call_adds asks w fn v context
  rw [transform, runFrom_callOnce, runFrom_map]
  rcases ran : ((code.host ask).call fn v context).runFrom w with ⟨f | u, w₁⟩
  · rw [ran] at called
    refine called.imp ?_
    rintro _ t ⟨within, rfl, shows⟩
    exact ⟨run_of_invocation shows, rfl⟩
  · rw [ran] at called
    refine called.imp ?_
    rintro _ t ⟨within, rfl, shows⟩
    refine ⟨run_of_invocation shows, ?_⟩
    cases awaitable : u.isAwaitable <;> simp [Entry.ranWell, Reply.ready?, awaitable, Except.isOk,
      Except.toBool]

/-- On the deferred path what the function returns is awaited if it has to be. -/
theorem awaitOnce_adds (head : Header) (fn v context : Value) :
    Adds code slot T id (Ran true) w
      ((awaitOnce (code.host ask) head.name context
        (transform (code.host ask) (.simple head fn) v context)).runFrom w) := by
  have called := call_adds asks w fn v context
  rw [transform, runFrom_awaitOnce, runFrom_map]
  rcases ran : ((code.host ask).call fn v context).runFrom w with ⟨f | u, w₁⟩
  · rw [ran] at called
    refine called.imp ?_
    rintro _ t ⟨within, rfl, shows⟩
    exact ⟨run_of_invocation shows, rfl⟩
  · rw [ran] at called
    have awaited := await_adds asks w₁ u
    simp only [Except.map, runFrom_mapFault, settle]
    cases awaitable : u.isAwaitable with
    | false =>
      refine called.imp ?_
      rintro _ t ⟨within, rfl, shows⟩
      exact ⟨run_of_invocation shows, by simp [Entry.ranWell, awaitable, Except.isOk, Except.toBool]⟩
    | true =>
      rw [if_pos rfl]
      rcases ended : ((code.host ask).await u).runFrom w₁ with ⟨r, w₂⟩
      rw [ended] at awaited
      have both : Adds code slot T id (Ran true) w (r, w₂) := by
        refine called.trans awaited ?_
        rintro _ t _ t' ⟨within, rfl, shows⟩ ⟨within', rfl, shows'⟩
        refine ⟨?_, ?_⟩
        · exact Tally.add_assoc _ _ _ ▸ (run_of_invocation shows).append (of_awaiting shows')
        · simp [Entry.ranWell, Entry.isAwaited, awaitable]
      exact both.imp fun news t shows => ⟨shows.1, shows.2.trans (isOk_mapError _ r).symm⟩

theorem invocation_adds (head : Header) (fn : Value) (awaits : Bool) (v context : Value) :
    Adds code slot T id (Ran awaits) w
      ((invocation (code.host ask) head fn awaits v context).runFrom w) := by
  cases awaits with
  | true => exact awaitOnce_adds asks w head fn v context
  | false => exact callOnce_adds asks w head fn v context

omit asks in
theorem expire_calls (head : Header) (own : head.id = id) :
    Calls code slot T id (expire (code.host ask) head slot) := by
  subst own
  refine .of_silent fun w => ?_
  unfold expire
  split
  · exact ⟨rfl, .refl _⟩
  · simp only [runFrom_onCache, if_true]
    refine ⟨rfl, ?_⟩
    split
    · exact .refl _
    · exact .sweep _ _

omit asks in
/-- After a miss the function has been run, and what it gave is stored, whether or not that goes
well. -/
theorem Adds.stored {w w₂ w₃ w₄ : World (U × List Entry)} {awaits : Bool} {u : Value}
    (missed : Adds code slot T id (CallsAnd .invocation) w ((.ok () : Except Fault Unit), w₂))
    (run : Adds code slot T id (Ran awaits) w₂ (.ok u, w₃))
    (moves : Moves code slot T (w₃.caches id) (w₄.caches id) .value)
    (same : w₄.journal = w₃.journal) (key : CacheKey) (r : Except Fault Value) :
    Adds code slot T id (InCall awaits (.ok (some key))) w (r, w₄) := by
  have kept : Adds code slot T id (fun _ news t => news = [] ∧ t = .value) w₃ (r, w₄) :=
    .of_moves moves same ⟨rfl, rfl⟩
  have both : Adds code slot T id
      (fun _ news t => ∃ t', Ran awaits (.ok u) news t' ∧ t = t' + .value) w₂ (r, w₄) := by
    refine run.trans kept ?_
    rintro news t _ _ ran ⟨rfl, rfl⟩
    exact ⟨t, (List.append_nil news).symm ▸ ran, rfl⟩
  refine missed.trans both ?_
  rintro news _ own _ ⟨s, calls, shows, rfl⟩ ⟨t, ran, rfl⟩
  rw [← Tally.add_assoc]
  exact of_ran calls shows ran (some key)

omit asks in
/-- What is entered in the journal is the call, with all that went on within it. -/
theorem enter_calls {m : Morph} {awaits : Bool} {v context : Value}
    {call : Request (U × List Entry)}
    (called : ∀ w, Adds code slot T id
      (InCall awaits ((cacheKey (code.host ask) m.head v (contextInEffect context)).runFrom w).1) w
      ((call.run (code.host ask)).runFrom w)) :
    Calls code slot T id (Errand.enter (code.host ask) m awaits v context call) := by
  intro w
  rw [Errand.enter]
  refine (called (w.withJournal [])).journaled fun r within t shows => ?_
  refine ⟨t, ?_, shows, rfl⟩
  intro e he
  rw [List.mem_singleton.mp he]
  rfl

end Code

/-! ### Calls -/

section Through

variable {code : Code U} {slot : CacheSlot} {T : Value → Prop} {head : Header}
  {ask : Errand → Engine (U × List Entry) (Option Value)} (has : head.cache = some slot)
include has

theorem cached_moves (key : CacheKey) {w w' : World (U × List Entry)}
    {r : Except Fault (Option Value)}
    (looked : (cached (code.host ask) head (some key)).runFrom w = (r, w')) :
    Moves code slot T (w.caches head.id) (w'.caches head.id) (.ofLookup r) ∧
      w'.journal = w.journal := by
  simp only [cached, has, runFrom_onCache] at looked
  cases looked
  simp only [if_true]
  exact ⟨.lookup w key _, rfl⟩

theorem remember_moves (key : CacheKey) (v : Value) {w w' : World (U × List Entry)}
    {r : Except Fault Unit}
    (stored : (remember (code.host ask) head (some key) v).runFrom w = (r, w')) :
    Moves code slot T (w.caches head.id) (w'.caches head.id) .value ∧ w'.journal = w.journal := by
  simp only [remember, has, runFrom_onCache] at stored
  cases stored
  simp only [if_true]
  exact ⟨.store w key v _, rfl⟩

omit has in
theorem skipAt_moves (w : World (U × List Entry)) :
    Moves code slot T (w.caches head.id) ((w.skipAt head.id).caches head.id) .invocation := by
  simp only [World.skipAt, if_true]
  exact .skip _

variable (asks : ∀ e, Calls code slot T head.id (ask e))
include asks

/-- A call that misses runs the function, and stores what comes of it. -/
theorem miss_adds (fn : Value) (awaits : Bool) (v context : Value) (key : CacheKey)
    {w w' : World (U × List Entry)}
    (missed : Adds code slot T head.id (CallsAnd .invocation) w
      ((.ok () : Except Fault Unit), w')) :
    Adds code slot T head.id (InCall awaits (.ok (some key))) w
      ((do
        let u ← invocation (code.host ask) head fn awaits v context
        remember (code.host ask) head (some key) u
        return u : Engine (U × List Entry) Value).runFrom w') := by
  have run := invocation_adds asks w' head fn awaits v context
  rcases ended : (invocation (code.host ask) head fn awaits v context).runFrom w' with ⟨f | u, w₁⟩
  · rw [ended] at run
    rw [runFrom_bind_error ended]
    refine missed.trans run ?_
    rintro news _ own t ⟨s, calls, shows, rfl⟩ ran
    exact of_ran calls shows ran (some key)
  · rw [ended] at run
    rw [runFrom_bind_ok ended]
    rcases stored : (remember (code.host ask) head (some key) u).runFrom w₁ with ⟨f | done, w₂⟩
    · obtain ⟨moves, same⟩ := remember_moves has key u stored
      rw [runFrom_bind_error stored]
      exact missed.stored run moves same key (.error f)
    · obtain ⟨moves, same⟩ := remember_moves has key u stored
      rw [runFrom_bind_ok stored]
      exact missed.stored run moves same key (.ok u)

/-- A call is the entry that it makes in the journal. -/
theorem throughCache_adds (fn : Value) (awaits : Bool) (v context : Value)
    (w : World (U × List Entry)) :
    Adds code slot T head.id (InCall awaits ((cacheKey (code.host ask) head v context).runFrom w).1) w
      ((throughCache (code.host ask) head v context
        (invocation (code.host ask) head fn awaits v context)).runFrom w) := by
  have before := fingerprints_calls asks slot.rule.projection v context w
  rcases found : (fingerprints (code.host ask) v
    (project (code.host ask) slot.rule.projection context)).runFrom w with ⟨f | (_ | digests), w₁⟩
  · have keyless := cacheKey_of_fault has found
    rw [found] at before
    rw [throughCache_of_fault keyless, keyless]
    refine before.imp ?_
    rintro news _ ⟨s, calls, shows, rfl⟩
    exact of_keyless shows awaits f
  · have keyless := cacheKey_of_none has found
    rw [found] at before
    rw [throughCache_of_none keyless, keyless]
    have skipped : Adds code slot T head.id (CallsAnd .invocation) w
        ((.ok () : Except Fault Unit), w₁.skipAt head.id) :=
      before.more (skipAt_moves w₁) rfl fun _ _ shows => shows
    refine skipped.trans (invocation_adds asks (w₁.skipAt head.id) head fn awaits v context) ?_
    rintro news _ own t ⟨s, calls, shows, rfl⟩ ran
    exact of_ran calls shows ran none
  · have keyed : (cacheKey (code.host ask) head v context).runFrom w =
        (.ok (some ⟨head.name.text, digests.1, digests.2⟩), w₁) := by
      simp only [cacheKey, has]
      exact runFrom_bind_ok found
    rw [found] at before
    rw [throughCache, runFrom_bind_ok keyed, keyed]
    rcases looked : (cached (code.host ask) head
      (some ⟨head.name.text, digests.1, digests.2⟩)).runFrom w₁ with ⟨f | (_ | u), w₂⟩
    · obtain ⟨moves, same⟩ := cached_moves has _ looked
      rw [runFrom_bind_error looked]
      refine before.more moves same ?_
      rintro news _ ⟨s, calls, shows, rfl⟩
      exact of_answered calls shows awaits _ 1
    · obtain ⟨moves, same⟩ := cached_moves has _ looked
      rw [runFrom_bind_ok looked]
      exact miss_adds has asks fn awaits v context _ (before.more moves same fun _ _ shows => shows)
    · obtain ⟨moves, same⟩ := cached_moves has _ looked
      rw [runFrom_bind_ok looked]
      refine before.more moves same ?_
      rintro news _ ⟨s, calls, shows, rfl⟩
      exact of_answered calls shows awaits _ 0

theorem executeDeferred_adds (fn v context : Value) (w : World (U × List Entry)) :
    Adds code slot T head.id (InCall true ((cacheKey (code.host ask) head v context).runFrom w).1) w
      ((executeDeferred (code.host ask) head head.name v context
        (transform (code.host ask) (.simple head fn) v context)).runFrom w) := by
  rw [executeDeferred, runFrom_mapFault]
  exact (throughCache_adds has asks fn true v context w).imp fun _ _ shows => shows

/-- On the direct path what comes out of the cache may have to be awaited, after the call. -/
theorem execute_adds (fn v context : Value) (w : World (U × List Entry)) :
    Adds code slot T head.id (InCall false ((cacheKey (code.host ask) head v context).runFrom w).1) w
      ((execute (code.host ask) head head.name v context
        (transform (code.host ask) (.simple head fn) v context) >>=
          fun u => settle (code.host ask) (.value u)).runFrom w) := by
  have called := throughCache_adds has asks fn false v context w
  rw [runFrom_bind]
  rcases ran : (execute (code.host ask) head head.name v context
    (transform (code.host ask) (.simple head fn) v context)).runFrom w with ⟨f | u, w₁⟩
  · have called : Adds _ _ _ _ _ w (.error f, w₁) := ran ▸ called
    exact called.imp fun _ _ shows => shows
  · have called : Adds _ _ _ _ _ w (.ok u, w₁) := ran ▸ called
    simp only [settle]
    cases awaitable : u.isAwaitable with
    | false => exact called.imp fun _ _ shows => shows
    | true =>
      refine called.trans (await_adds asks w₁ u) ?_
      rintro news t _ t' shows ⟨within, rfl, awaited⟩
      exact of_settled shows awaited

theorem apply_adds (fn v context : Value) (w : World (U × List Entry)) :
    Adds code slot T head.id
      (InCall (isAsync (.simple head fn))
        ((cacheKey (code.host ask) head v (contextInEffect context)).runFrom w).1) w
      ((apply (code.host ask) (.simple head fn) v context >>= settle (code.host ask)).runFrom w) := by
  unfold apply
  cases (isAsync (.simple head fn)) with
  | true => exact executeDeferred_adds has asks fn v (contextInEffect context) w
  | false =>
    rw [if_neg Bool.false_ne_true, map_eq_pure_bind, bind_assoc]
    simp only [pure_bind]
    exact execute_adds has asks fn v (contextInEffect context) w

theorem perform_calls (fn : Value) (errand : Errand) :
    Calls code slot T head.id (errand.perform (code.host ask) (.simple head fn)) := by
  cases errand with
  | apply v context =>
    exact enter_calls fun w => (apply_adds has asks fn v context w).map fun _ _ _ shows => shows
  | applyAsync v context =>
    exact enter_calls fun w =>
      (executeDeferred_adds has asks fn v (contextInEffect context) w).map fun _ _ _ shows => shows
  | expire =>
    simp only [Errand.perform, Request.run, Morph.head, has]
    exact .map (expire_calls head rfl) _
  | clear =>
    simp only [Errand.perform, Request.run, Morph.head, has]
    refine .map (.of_silent fun w => ⟨rfl, ?_⟩) _
    have emptied : ((modifyCache head.id MemoCache.clear).runFrom w).2.caches head.id =
        (w.caches head.id).clear := if_pos rfl
    rw [emptied]
    exact .clear _

end Through

/-- However deep calls may be nested, errands add the calls that they are to the journal. -/
theorem ask_calls {code : Code U} {slot : CacheSlot} {T : Value → Prop} {head : Header}
    (has : head.cache = some slot) (fn : Value) (depth : Nat) :
    ∀ errand, Calls code slot T head.id (code.ask (.simple head fn) depth errand) := by
  induction depth with
  | zero => exact fun _ => .of_kept fun _ => rfl
  | succ depth ih => exact perform_calls has ih fn

/-- From an empty cache and an empty journal the one accounts for the other. -/
theorem script_accounts {head : Header} {slot : CacheSlot} (has : head.cache = some slot)
    (code : Code U) (T : Value → Prop) (fn : Value) (depth : Nat) (script : Script U)
    {w : World (U × List Entry)} (fresh : w.caches head.id = .empty) (blank : w.journal = []) :
    ∃ t, t.Of ((script.run (code.ask (.simple head fn) depth)).runFrom w).2.journal ∧
      Moves code slot T .empty
        (((script.run (code.ask (.simple head fn) depth)).runFrom w).2.caches head.id) t := by
  have asks : ∀ errand, Calls code slot T head.id (code.ask (.simple head fn) depth errand) :=
    ask_calls has fn depth
  obtain ⟨news, _, grown, ⟨t, _, shows, rfl⟩, moves⟩ := script_calls asks script w
  rw [blank, List.nil_append] at grown
  rw [fresh] at moves
  exact ⟨t, grown ▸ shows, moves⟩

end Morph

namespace Code

open Morph

/-- Whatever user code does with a morph that is backed by a function, the counters of its cache
account for the calls and the runs of the function that the journal shows. A call counts when its key
was looked for without a fault, as long as the clock keeps time, so that what is found can be
judged. -/
theorem counters_account_for_calls {id : Nat} {name fn metadata : Value} {settings : CacheSettings}
    {options : Fields} {m : Morph} (made : create id name fn metadata settings options = .ok m)
    (cacheable : m.metadata.isCacheable = true) :
    ∃ slot, m.head.cache = some slot ∧
      ∀ (code : Code U) (depth : Nat) (script : Script U) (w : World (U × List Entry)),
        w.caches m.id = .empty → w.journal = [] →
        let w' := ((script.run (code.ask m depth)).runFrom w).2
        let c := w'.caches m.id
        let calls := occurrences Entry.isKeyed w'.journal
        (∀ T, code.KeepsTime slot T →
          c.counters.hits + c.counters.misses + c.counters.skips = calls) ∧
        c.counters.hits + c.counters.misses + c.counters.skips ≤ calls ∧
        c.counters.misses + c.counters.skips = occurrences Entry.isInvocation w'.journal ∧
        c.counters.stores = occurrences Entry.isValuedMiss w'.journal ∧
        c.size ≤ slot.rule.limit ∧ (∀ n : Int, slot.maxsize = .int n → (c.size : Int) ≤ n) ∧
        c.counters.expired + c.size ≤ c.counters.stores ∧
        c.clear.counters = c.counters ∧
        ∀ (isStale : Value → Except Fault Bool) (key : CacheKey),
          (c.contains isStale key).2.counters = c.counters := by
  obtain ⟨slot, cached, _⟩ := (Made.function made).cachesAsDeclared cacheable
  refine ⟨slot, cached, fun code depth script w fresh blank => ?_⟩
  obtain ⟨d, head, _, rfl, header⟩ := create_eq_ok made
  obtain ⟨_, limit⟩ := slot_of_makeHeader header cached
  have has : head.cache = some slot := cached
  have started : w.caches head.id = .empty := fresh
  obtain ⟨t, shows, moves⟩ := script_accounts has code (fun _ => True) fn depth script started blank
  obtain ⟨orderly, fits, stocked⟩ := moves.orderly (orderly_empty slot.rule.limit)
  obtain ⟨keyed, invoked, returned⟩ := moves.accounts
  simp only [empty, Nat.zero_add] at keyed invoked returned
  refine ⟨fun T clock => ?_, ?_, invoked.trans shows.invoked, returned.trans shows.returned, fits,
    fun n bound => ?_, stocked, rfl, fun isStale key => counters_contains isStale key _⟩
  · obtain ⟨t, shows, moves⟩ := script_accounts has code T fn depth script started blank
    obtain ⟨keyed, _, _⟩ := moves.accounts
    have decided := (moves.timed clock (keeps_of_empty rfl)).2
    simp only [empty, Nat.zero_add, decided, Nat.add_zero] at keyed
    exact keyed.trans shows.keyed
  · rw [← shows.keyed, ← keyed]
    exact Nat.le_add_right _ _
  · rw [bound] at limit
    rw [← CacheRule.limit_of_int limit]
    exact Int.ofNat_le.mpr fits

/-! ### A function that calls its own morph -/

/-- The function has the morph applied to zero first. The clock stands still. -/
def nesting : Code Unit where
  cells := []
  call _ _ context := .asks (.applyAsync (.int 0) context) fun _ => .ends (.ok (.text "done"))
  select _ _ := .ends (.ok .none)
  await _ := .ends (.ok .none)
  now _ _ := .ok (.int 0)

def twoCalls : Script Unit :=
  .asks (.apply (.int 0) .none) fun _ => .asks (.apply (.int 0) .none) fun _ => .ends (.ok .none)

def idleWorld : World (Unit × List Entry) := ⟨fun _ => .empty, (), []⟩

theorem twoCalls_counters :
    ((((twoCalls.run (nesting.ask Request.innerMorph 2)).runFrom idleWorld).2.caches
      Request.innerMorph.id)).counters = ⟨1, 2, 2, 0, 0⟩ := by
  decide +kernel

/-- Two calls on zero make three, with the call that the first of them makes: two of them miss, run the
function and store what it returns, one over the other, and the last one hits. The call that the
inner run makes in turn is nested too deep to come about. -/
theorem nestedCalls_accounted :
    let journal := ((twoCalls.run (nesting.ask Request.innerMorph 2)).runFrom idleWorld).2.journal
    occurrences Entry.isKeyed journal = 3 ∧ occurrences Entry.isInvocation journal = 2 ∧
      occurrences Entry.isValuedMiss journal = 2 := by
  intro journal
  have created : create 0 (.text "inner") (.function 0 false) .none
      (EngineSettings.mk (.bool true) (.int 2) (.int 1) .moving)
      [("memoizable", .bool true)] = .ok Request.innerMorph := rfl
  obtain ⟨slot, cached, general⟩ := counters_account_for_calls (U := Unit) created rfl
  cases cached
  obtain ⟨keyed, _, invoked, returned, _⟩ := general nesting 2 twoCalls idleWorld rfl rfl
  have clock : nesting.KeepsTime ⟨⟨.text "inner", .int 1, 2, .whole⟩, .int 2, .moving⟩
      fun v => ∃ n : Int, v = .int n := by
    refine ⟨fun w => ⟨_, rfl, 0, rfl⟩, ?_⟩
    rintro _ _ ⟨x, rfl⟩ ⟨y, rfl⟩
    exact ⟨_, rfl⟩
  have keyed := keyed _ clock
  rw [twoCalls_counters] at keyed invoked returned
  exact ⟨keyed.symm, invoked.symm, returned.symm⟩

end Code

end MorphEngine
