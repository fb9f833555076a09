import NdnExt.Lib.Run
import NdnExt.Leases.Steps

/-! Exclusive conflict keys and the lifecycle of a lease, in every run. -/

namespace NdnExt.Leases

open NdnExt.Lib NdnExt.Lib.System LeaseTable

/-- The moves that `op` asks for: its holder, the epoch and the plan are those of the lease. -/
inductive Requested (bootEpoch : Nat) (id : LeaseId) (entry : LeaseEntry) :
    Op → LeaseState → Prop
  | commit : entry.state = .prepared →
      Requested bootEpoch id entry (.commit id entry.holder bootEpoch) .committed
  | activate : entry.state = .committed →
      Requested bootEpoch id entry (.activate id entry.holder bootEpoch entry.planDigest) .executing
  | abort : entry.state = .prepared ∨ entry.state = .committed →
      Requested bootEpoch id entry (.abort id entry.holder bootEpoch) .aborted
  | release : entry.state = .executing →
      Requested bootEpoch id entry (.release id entry.holder bootEpoch) .released

variable {bootEpoch : Nat} {id : LeaseId} {input : Call} {table : LeaseTable}
  {after before : LeaseEntry}

theorem Requested.live {entry : LeaseEntry} {op : Op}
    {target : LeaseState} (requested : Requested bootEpoch id entry op target) :
    entry.state.isLive := by
  cases requested with
  | commit state => rw [state, LeaseState.isLive]
  | activate state => rw [state, LeaseState.isLive]
  | abort state => rcases state with state | state <;> rw [state, LeaseState.isLive]
  | release state => rw [state, LeaseState.isLive]

/-- What a call can do. -/
inductive Effect (table : LeaseTable) (input : Call) : Answer → LeaseTable → Prop
  | kept {answer next} : Kept input.nowSecs table next → Effect table input answer next
  | moved {id entry target next} : table.leases.lookup id = some entry →
      Requested table.bootEpoch id entry input.op target →
      Sets id { entry with state := target } table next →
      Effect table input (.done (.ok ())) next
  | renewed {id entry expiry lease next} : table.leases.lookup id = some entry →
      Sets id { entry with expiresAtSecs := expiry } table next →
      Effect table input (.lease (.ok lease)) next
  | granted {req drawn lease} : input.op = .prepare req drawn →
      req.idempotencyKey.bind table.idempotency.lookup = none →
      (∀ key ∈ req.conflictKeys, ¬ table.held key) →
      Effect table input (.lease (.ok lease)) (table.grant input.nowSecs req drawn)
  | cleaned {count next} : input.op = .cleanup → Cleaned input.nowSecs table next →
      Effect table input (.count count) next

theorem transition_effect {holder : Name} {sources : List LeaseState} {target : LeaseState}
    (requested : ∀ entry : LeaseEntry, entry.holder = holder → bootEpoch = table.bootEpoch →
      entry.state ∈ sources → Requested table.bootEpoch id entry input.op target) :
    Effect table input
      (.done (table.transition input.nowSecs id holder bootEpoch sources target).1)
      (table.transition input.nowSecs id holder bootEpoch sources target).2 := by
  rcases transition_cases table input.nowSecs id holder bootEpoch sources target with
    ⟨entry, next, taken, epoch, found, own, source, _, sets⟩ | ⟨error, next, failed, kept⟩
  · rw [taken]
    exact Effect.moved found (requested entry own epoch source) sets
  · rw [failed]
    exact Effect.kept kept

theorem call_effect (table : LeaseTable) (input : Call) :
    Effect table input (table.call input).1 (table.next input) := by
  rcases input with ⟨nowSecs, op⟩
  cases op with
  | prepare req drawn =>
    rcases prepare_cases table nowSecs req drawn with
      ⟨id, digest, entry, next, taken, _, _, _, _, _, same⟩ | ⟨slot, free, taken⟩ |
        ⟨error, next, failed, kept⟩
    · simp only [LeaseTable.next, call, answering, taken]
      exact Effect.kept (Or.inl same)
    · simp only [LeaseTable.next, call, answering, taken]
      exact Effect.granted rfl slot free
    · simp only [LeaseTable.next, call, answering, failed]
      exact Effect.kept kept
  | commit id holder bootEpoch =>
    apply transition_effect
    intro entry own epoch source
    subst own epoch
    exact Requested.commit (List.mem_singleton.mp source)
  | activate id holder bootEpoch planDigest =>
    rcases activate_cases table nowSecs id holder bootEpoch planDigest with
      ⟨entry, next, taken, epoch, found, own, plan, source, sets⟩ | ⟨error, next, failed, kept⟩
    · simp only [LeaseTable.next, call, answering, taken]
      subst own epoch plan
      exact Effect.moved found (Requested.activate source) sets
    · simp only [LeaseTable.next, call, answering, failed]
      exact Effect.kept kept
  | renew id holder bootEpoch extendSecs =>
    rcases renew_cases table nowSecs id holder bootEpoch extendSecs with
      ⟨entry, lease, expiry, next, taken, found, sets⟩ | ⟨error, next, failed, kept⟩
    · simp only [LeaseTable.next, call, answering, taken]
      exact Effect.renewed found sets
    · simp only [LeaseTable.next, call, answering, failed]
      exact Effect.kept kept
  | abort id holder bootEpoch =>
    apply transition_effect
    intro entry own epoch source
    subst own epoch
    exact Requested.abort (by simpa using source)
  | release id holder bootEpoch =>
    apply transition_effect
    intro entry own epoch source
    subst own epoch
    exact Requested.release (List.mem_singleton.mp source)
  | state id => exact Effect.kept (lazilyExpire_kept table nowSecs id)
  | cleanup => exact Effect.cleaned rfl (cleanup_cleaned table nowSecs)
  | liveCount => exact Effect.kept (Or.inl (Same.refl table))

/-- Live leases share no conflict key, and the idempotency slots are those of the leases: each
points at the one lease that was prepared under its key, with that lease's digest. -/
structure Sound (table : LeaseTable) : Prop where
  exclusive : ∀ first second left right, table.leases.lookup first = some left →
    table.leases.lookup second = some right → first ≠ second → left.state.isLive →
    right.state.isLive → ∀ key ∈ left.conflictKeys, key ∉ right.conflictKeys
  slots : ∀ key id digest, table.idempotency.lookup key = some (id, digest) ↔
    ∃ entry, table.leases.lookup id = some entry ∧ entry.idempotencyKey = some key ∧
      entry.planDigest = digest

theorem sound_new (bootEpoch : Nat) : Sound (LeaseTable.new bootEpoch) := by
  constructor
  · intro first second left right found
    cases found
  · intro key id digest
    constructor
    · intro found
      cases found
    · intro ⟨entry, found, _⟩
      cases found

theorem Sound.same {next : LeaseTable} (sound : Sound table) (same : Same table next) :
    Sound next := by
  constructor
  · intro first second left right
    rw [same.leases, same.leases]
    exact sound.exclusive first second left right
  · intro key id digest
    rw [same.slots, same.leases]
    exact sound.slots key id digest

/-- An entry may change in state, but not back to life, and in expiry. -/
theorem Sound.sets {next : LeaseTable}
    (sound : Sound table) (found : table.leases.lookup id = some before)
    (sets : Sets id after table next) (live : after.state.isLive → before.state.isLive)
    (keys : after.conflictKeys = before.conflictKeys)
    (plan : after.planDigest = before.planDigest)
    (slot : after.idempotencyKey = before.idempotencyKey) : Sound next := by
  have old : ∀ other entry, next.leases.lookup other = some entry →
      ∃ was, table.leases.lookup other = some was ∧ (entry.state.isLive → was.state.isLive) ∧
        entry.conflictKeys = was.conflictKeys ∧ entry.planDigest = was.planDigest ∧
        entry.idempotencyKey = was.idempotencyKey := by
    intro other entry present
    rw [sets.leases] at present
    split at present
    · next same =>
      cases present
      exact ⟨before, by rw [same, found], live, keys, plan, slot⟩
    · exact ⟨entry, present, fun live => live, rfl, rfl, rfl⟩
  have new : ∀ other was, table.leases.lookup other = some was →
      ∃ entry, next.leases.lookup other = some entry ∧ entry.planDigest = was.planDigest ∧
        entry.idempotencyKey = was.idempotencyKey := by
    intro other was present
    rw [sets.leases]
    split
    · next same =>
      rw [same, found] at present
      cases present
      exact ⟨after, rfl, plan, slot⟩
    · exact ⟨was, present, rfl, rfl⟩
  constructor
  · intro first second left right leftFound rightFound apart leftLive rightLive
    rcases old first left leftFound with ⟨_, leftWas, leftLived, leftKeys, _⟩
    rcases old second right rightFound with ⟨_, rightWas, rightLived, rightKeys, _⟩
    rw [leftKeys, rightKeys]
    exact sound.exclusive _ _ _ _ leftWas rightWas apart (leftLived leftLive) (rightLived rightLive)
  · intro key other digest
    rw [sets.slots, sound.slots]
    constructor
    · intro ⟨was, present, named, digested⟩
      rcases new other was present with ⟨entry, here, plan', slot'⟩
      exact ⟨entry, here, slot'.trans named, plan'.trans digested⟩
    · intro ⟨entry, present, named, digested⟩
      rcases old other entry present with ⟨was, there, _, _, plan', slot'⟩
      exact ⟨was, there, slot'.symm.trans named, plan'.symm.trans digested⟩

theorem Sound.kept {nowSecs : Nat} {next : LeaseTable} (sound : Sound table)
    (kept : Kept nowSecs table next) : Sound next := by
  rcases kept with same | ⟨id, entry, found, live, _, sets⟩
  · exact sound.same same
  · exact sound.sets found sets (fun _ => live) rfl rfl rfl

theorem Sound.cleaned {nowSecs : Nat} {next : LeaseTable} (sound : Sound table)
    (cleaned : Cleaned nowSecs table next) : Sound next := by
  constructor
  · intro first second left right leftFound rightFound
    exact sound.exclusive _ _ _ _ ((cleaned.leases _ _).mp leftFound).1
      ((cleaned.leases _ _).mp rightFound).1
  · intro key id digest
    rw [cleaned.slots, sound.slots]
    constructor
    · intro ⟨⟨entry, found, named, digested⟩, stays⟩
      refine ⟨entry, (cleaned.leases id entry).mpr ⟨found, ?_⟩, named, digested⟩
      by_contra terminal
      exact stays ⟨entry, found, terminal, named⟩
    · intro ⟨entry, present, named, digested⟩
      have old := (cleaned.leases id entry).mp present
      refine ⟨⟨entry, old.1, named, digested⟩, ?_⟩
      intro ⟨other, found, terminal, _⟩
      rw [old.1] at found
      cases found
      exact terminal old.2

theorem Sound.granted {table : LeaseTable} {nowSecs : Nat} {req : LeaseRequest}
    {drawn : LeaseId} (sound : Sound table) (fresh : table.leases.lookup drawn = none)
    (slot : req.idempotencyKey.bind table.idempotency.lookup = none)
    (free : ∀ key ∈ req.conflictKeys, ¬ table.held key) :
    Sound (table.grant nowSecs req drawn) := by
  have leases : ∀ id, (table.grant nowSecs req drawn).leases.lookup id =
      if id = drawn then some (grantedEntry nowSecs req) else table.leases.lookup id :=
    fun id => HashMap.lookup_insert_eq _ _ _ _
  have slots : ∀ key, (table.grant nowSecs req drawn).idempotency.lookup key =
      if req.idempotencyKey = some key then some (drawn, req.planDigest)
      else table.idempotency.lookup key := by
    intro key
    rw [grant]
    cases req.idempotencyKey with
    | none => rfl
    | some own =>
      simp only [HashMap.lookup_insert_eq, Option.some.injEq, @eq_comm _ own]
  have unheld : ∀ id entry, table.leases.lookup id = some entry → entry.state.isLive →
      ∀ key ∈ req.conflictKeys, key ∉ entry.conflictKeys :=
    fun id entry found live key wanted member =>
      free key wanted (held_iff.mpr ⟨id, entry, found, live, member⟩)
  constructor
  · intro first second left right leftFound rightFound apart leftLive rightLive key
    rw [leases] at leftFound rightFound
    split at leftFound
    · next same =>
      rw [if_neg (fun other => apart (same.trans other.symm))] at rightFound
      cases leftFound
      exact unheld second right rightFound rightLive key
    · split at rightFound
      · cases rightFound
        intro member wanted
        exact unheld first left leftFound leftLive key wanted member
      · exact sound.exclusive _ _ _ _ leftFound rightFound apart leftLive rightLive key
  · intro key id digest
    have unslotted : req.idempotencyKey = some key → table.idempotency.lookup key = none := by
      intro named
      rw [named] at slot
      exact slot
    rw [slots, leases]
    by_cases named : req.idempotencyKey = some key
    · rw [if_pos named]
      by_cases new : id = drawn
      · rw [if_pos new, new]
        simp only [Option.some.injEq, Prod.mk.injEq, true_and, exists_eq_left']
        exact (and_iff_right named).symm
      · rw [if_neg new, ← sound.slots, unslotted named]
        simp [Ne.symm new]
    · rw [if_neg named, sound.slots]
      by_cases new : id = drawn
      · rw [if_pos new, new, fresh]
        simp only [reduceCtorEq, false_and, exists_false, Option.some.injEq, exists_eq_left', false_iff]
        exact fun both => named both.1
      · rw [if_neg new]

/-- The draw of a new id hits none that the table holds. -/
def DrawsFresh (table : LeaseTable) (input : Call) : Prop :=
  match input.op with
  | .prepare _ drawn => table.leases.lookup drawn = none
  | _ => True

theorem Sound.next (sound : Sound table)
    (fresh : DrawsFresh table input) : Sound (table.next input) := by
  have effect := call_effect table input
  generalize (table.call input).1 = answer at effect
  generalize table.next input = next at effect
  cases effect with
  | kept kept => exact sound.kept kept
  | moved found requested sets =>
    exact sound.sets found sets (fun _ => requested.live) rfl rfl rfl
  | renewed found sets => exact sound.sets found sets (fun live => live) rfl rfl rfl
  | granted op slot free =>
    rw [DrawsFresh, op] at fresh
    exact sound.granted fresh slot free
  | cleaned _ cleaned => exact sound.cleaned cleaned

/-- What one call may do to the leases and the slots. -/
structure Lawful (table : LeaseTable) (input : Call) : Prop where
  sound : Sound (table.next input)
  born : ∀ id after, table.leases.lookup id = none →
    (table.next input).leases.lookup id = some after →
    ∃ req, input.op = .prepare req id ∧ after = grantedEntry input.nowSecs req
  moves : ∀ id before after, table.leases.lookup id = some before →
    (table.next input).leases.lookup id = some after →
    after.state = before.state ∨ Requested table.bootEpoch id before input.op after.state ∨
      before.state.isLive ∧ before.expiresAtSecs ≤ input.nowSecs ∧ after.state = .expired
  binds : ∀ id before after, table.leases.lookup id = some before →
    (table.next input).leases.lookup id = some after →
    after.holder = before.holder ∧ after.conflictKeys = before.conflictKeys ∧
      after.planDigest = before.planDigest ∧ after.idempotencyKey = before.idempotencyKey
  gone : ∀ id before, table.leases.lookup id = some before →
    (table.next input).leases.lookup id = none →
    input.op = .cleanup ∧ ¬ (before.expireAt input.nowSecs).state.isLive
  refused : (table.call input).1.refused → Kept input.nowSecs table (table.next input)

theorem Sets.lookup_cases {next : LeaseTable} {other : LeaseId}
    {entry : LeaseEntry} (sets : Sets id entry table next)
    (found : table.leases.lookup other = some before)
    (stays : next.leases.lookup other = some after) :
    after = before ∨ other = id ∧ after = entry := by
  rw [sets.leases] at stays
  split at stays
  · next same =>
    cases stays
    exact Or.inr ⟨same, rfl⟩
  · rw [found] at stays
    cases stays
    exact Or.inl rfl

/-- What an entry that stays is replaced by. -/
theorem lookup_next
    (fresh : DrawsFresh table input) (found : table.leases.lookup id = some before)
    (stays : (table.next input).leases.lookup id = some after) :
    after = before ∨
      (∃ target, Requested table.bootEpoch id before input.op target ∧
        after = { before with state := target }) ∨
      (before.state.isLive ∧ before.expiresAtSecs ≤ input.nowSecs ∧
        after = { before with state := .expired }) ∨
      ∃ expiry, after = { before with expiresAtSecs := expiry } := by
  have effect := call_effect table input
  generalize (table.call input).1 = answer at effect
  generalize table.next input = next at effect stays
  cases effect with
  | kept kept =>
    rcases kept with same | ⟨other, entry, expiring, live, due, sets⟩
    · rw [same.leases, found] at stays
      exact Or.inl (Option.some.inj stays).symm
    · rcases sets.lookup_cases found stays with same | ⟨same, replaced⟩
      · exact Or.inl same
      · rw [same, expiring] at found
        cases found
        exact Or.inr (Or.inr (Or.inl ⟨live, due, replaced⟩))
  | moved moving requested sets =>
    rcases sets.lookup_cases found stays with same | ⟨same, replaced⟩
    · exact Or.inl same
    · rw [same, moving] at found
      cases found
      rw [same]
      exact Or.inr (Or.inl ⟨_, requested, replaced⟩)
  | renewed renewing sets =>
    rcases sets.lookup_cases found stays with same | ⟨same, replaced⟩
    · exact Or.inl same
    · rw [same, renewing] at found
      cases found
      exact Or.inr (Or.inr (Or.inr ⟨_, replaced⟩))
  | @granted req drawn _ op slot free =>
    rw [DrawsFresh, op] at fresh
    rw [grant, HashMap.lookup_insert_eq] at stays
    split at stays
    · next same =>
      rw [same, fresh] at found
      cases found
    · rw [found] at stays
      exact Or.inl (Option.some.inj stays).symm
  | cleaned _ cleaned =>
    rw [cleaned.leases, found] at stays
    exact Or.inl (Option.some.inj stays.1).symm

theorem lookup_born
    (missing : table.leases.lookup id = none)
    (there : (table.next input).leases.lookup id = some after) :
    ∃ req, input.op = .prepare req id ∧ after = grantedEntry input.nowSecs req := by
  have untouched : ∀ other entry next, table.leases.lookup other = some entry →
      ∀ changed, Sets other changed table next → next.leases.lookup id = none := by
    intro other entry next found changed sets
    rw [sets.leases, if_neg, missing]
    intro same
    rw [← same, missing] at found
    cases found
  have effect := call_effect table input
  generalize (table.call input).1 = answer at effect
  generalize table.next input = next at effect there
  cases effect with
  | kept kept =>
    rcases kept with same | ⟨other, entry, found, _, _, sets⟩
    · rw [same.leases, missing] at there
      cases there
    · rw [untouched other entry _ found _ sets] at there
      cases there
  | moved found _ sets =>
    rw [untouched _ _ _ found _ sets] at there
    cases there
  | renewed found sets =>
    rw [untouched _ _ _ found _ sets] at there
    cases there
  | @granted req drawn _ op slot free =>
    rw [grant, HashMap.lookup_insert_eq] at there
    split at there
    · next same =>
      subst same
      exact ⟨req, op, (Option.some.inj there).symm⟩
    · rw [missing] at there
      cases there
  | cleaned _ cleaned =>
    rw [cleaned.leases, missing] at there
    cases there.1

theorem lookup_gone
    (found : table.leases.lookup id = some before)
    (missing : (table.next input).leases.lookup id = none) :
    input.op = .cleanup ∧ ¬ (before.expireAt input.nowSecs).state.isLive := by
  have stays : ∀ other changed next, Sets other changed table next →
      next.leases.lookup id ≠ none := by
    intro other changed next sets missing
    rw [sets.leases] at missing
    split at missing
    · cases missing
    · rw [found] at missing
      cases missing
  have effect := call_effect table input
  generalize (table.call input).1 = answer at effect
  generalize table.next input = next at effect missing
  cases effect with
  | kept kept =>
    rcases kept with same | ⟨other, entry, _, _, _, sets⟩
    · rw [same.leases, found] at missing
      cases missing
    · exact absurd missing (stays _ _ _ sets)
  | moved _ _ sets => exact absurd missing (stays _ _ _ sets)
  | renewed _ sets => exact absurd missing (stays _ _ _ sets)
  | granted =>
    rw [grant, HashMap.lookup_insert_eq] at missing
    split at missing
    · cases missing
    · rw [found] at missing
      cases missing
  | cleaned op cleaned =>
    refine ⟨op, ?_⟩
    intro live
    rw [(cleaned.leases id before).mpr ⟨found, live⟩] at missing
    cases missing

theorem kept_of_refused
    (refused : (table.call input).1.refused) : Kept input.nowSecs table (table.next input) := by
  have effect := call_effect table input
  generalize (table.call input).1 = answer at effect refused
  generalize table.next input = next at effect
  cases effect with
  | kept kept => exact kept
  | moved => exact absurd refused (by simp [Answer.refused])
  | renewed => exact absurd refused (by simp [Answer.refused])
  | granted => exact absurd refused (by simp [Answer.refused])
  | cleaned => exact absurd refused (by simp [Answer.refused])

theorem Sound.lawful (sound : Sound table)
    (fresh : DrawsFresh table input) : Lawful table input := by
  refine ⟨sound.next fresh, fun _ _ => lookup_born, ?_, ?_, fun _ _ => lookup_gone,
    kept_of_refused⟩
  · intro id before after found stays
    rcases lookup_next fresh found stays with same | ⟨target, requested, same⟩ |
      ⟨live, due, same⟩ | ⟨expiry, same⟩
    · exact Or.inl (by rw [same])
    · rw [same]
      exact Or.inr (Or.inl requested)
    · rw [same]
      exact Or.inr (Or.inr ⟨live, due, rfl⟩)
    · exact Or.inl (by rw [same])
  · intro id before after found stays
    rcases lookup_next fresh found stays with same | ⟨target, _, same⟩ | ⟨_, _, same⟩ |
      ⟨expiry, same⟩ <;> rw [same] <;> exact ⟨rfl, rfl, rfl, rfl⟩

namespace LeaseTable

def step (table : LeaseTable) (input : Call) : Option LeaseTable := some (table.next input)

end LeaseTable

/-- The tables that runs of one provider instance can be in. -/
abbrev Reached (bootEpoch : Nat) : LeaseTable → Prop :=
  Reaches LeaseTable.step DrawsFresh (LeaseTable.new bootEpoch)

theorem reached_next (reached : Reached bootEpoch table)
    (input : Call) (fresh : DrawsFresh table input) : Reached bootEpoch (table.next input) :=
  reached.step fresh rfl

theorem sound_reached (reached : Reached bootEpoch table) :
    Sound table := by
  refine reached.invariant Sound (sound_new bootEpoch) ?_
  intro table input next sound fresh taken
  cases taken
  exact sound.next fresh

theorem epoch_reached (reached : Reached bootEpoch table) :
    table.bootEpoch = bootEpoch := by
  refine reached.invariant (fun table => table.bootEpoch = bootEpoch) rfl ?_
  intro table input next epoch _ taken
  cases taken
  have effect := call_effect table input
  generalize (table.call input).1 = answer at effect
  generalize table.next input = next at effect
  cases effect with
  | kept kept =>
    rcases kept with same | ⟨_, _, _, _, _, sets⟩
    · exact same.epoch.trans epoch
    · exact sets.epoch.trans epoch
  | moved _ _ sets => exact sets.epoch.trans epoch
  | renewed _ sets => exact sets.epoch.trans epoch
  | granted => exact epoch
  | cleaned _ cleaned => exact cleaned.epoch.trans epoch

/-- Exclusivity, exact slots and a lawful next call, whatever the run. -/
theorem leases_lawful {bootEpoch : Nat} {table : LeaseTable} (reached : Reached bootEpoch table) :
    table.bootEpoch = bootEpoch ∧ Sound table ∧
      ∀ input, DrawsFresh table input → Lawful table input :=
  ⟨epoch_reached reached, sound_reached reached, fun _ => (sound_reached reached).lawful⟩

def alice : Name := ⟨[.generic [97]]⟩

def bob : Name := ⟨[.generic [98]]⟩

def gpuRequest (holder : Name) (idempotencyKey : Option String) : LeaseRequest where
  holder := holder
  conflictKeys := ["gpu0"]
  planDigest := "plan"
  idempotencyKey := idempotencyKey
  ttlSecs := 60

theorem leases_lawful_granted :
    Lawful ((LeaseTable.new 7).next ⟨0, .prepare (gpuRequest alice none) ⟨"a"⟩⟩)
      ⟨1, .commit ⟨"a"⟩ alice 7⟩ :=
  (leases_lawful (reached_next Reaches.start ⟨0, .prepare (gpuRequest alice none) ⟨"a"⟩⟩ rfl)).2.2 _ trivial

end NdnExt.Leases
