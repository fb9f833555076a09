import NdnExt.Lib.Run
import NdnExt.Pipes.Teardown

/-! Relays on a path that watch their pipes, announce the teardown of idle ones and hear of each
other's announcements. -/

namespace NdnExt.Pipes

open NdnExt.Lib NdnExt.Lib.Run

/-- An announced teardown, and the relays that it reached. -/
structure Emitted (ι : Type) where
  teardown : DueTeardown
  seq : UInt64
  delivered : List ι
  deriving DecidableEq

structure Path (ι : Type) where
  clock : Nanos
  stores : ι → RelayPipeStore
  emitted : List (Emitted ι)

inductive PathEvent (ι : Type) where
  | traffic (i : ι) (name : Name)
  | activity (i : ι) (ns : Name)
  | poll (i : ι) (quantum : Nanos) (seq : Bytes → UInt64)
  | deliver (t : Nat) (i : ι)

/-- An event, and the time since the one before it. -/
structure PathAction (ι : Type) where
  elapsed : Nanos
  event : PathEvent ι

namespace Path

variable {ι : Type} [DecidableEq ι] (crypto : Crypto)

def setStore (path : Path ι) (i : ι) (store : RelayPipeStore) : Path ι :=
  { path with stores := Function.update path.stores i store }

/-- What a relay makes of an announced teardown. -/
def heard (store : RelayPipeStore) (t : Emitted ι) : RelayPipeStore :=
  let message := pipeTeardownInterest crypto t.teardown.ns t.teardown.id t.teardown.pipeKey t.seq
  onTeardown crypto relayMembership store message.1 message.2

def event (path : Path ι) : PathEvent ι → Path ι
  | .traffic i name => path.setStore i ((path.stores i).noteTraffic path.clock name)
  | .activity i ns => path.setStore i ((path.stores i).noteActivity path.clock ns)
  | .poll i quantum seq =>
    let (store, due) := (path.stores i).due path.clock quantum
    { path.setStore i store with
      emitted := path.emitted ++ due.map fun d => ⟨d, seq d.id, []⟩ }
  | .deliver t i =>
    match path.emitted[t]? with
    | none => path
    | some emitted =>
      if i ∈ emitted.delivered then path
      else
        { path.setStore i (heard crypto (path.stores i) emitted) with
          emitted := path.emitted.set t { emitted with delivered := i :: emitted.delivered } }

def waited (path : Path ι) (elapsed : Nanos) : Path ι := { path with clock := path.clock + elapsed }

def step (path : Path ι) (action : PathAction ι) : Path ι :=
  (path.waited action.elapsed).event crypto action.event

/-- Relays that hold any pipes, none of them announced. -/
structure Fresh (path : Path ι) : Prop where
  unannounced : ∀ i id e, (path.stores i).lookup id = some e → e.announced = false
  before : ∀ i id e, (path.stores i).lookup id = some e → e.lastActivity ≤ path.clock
  short : ∀ i id e, (path.stores i).lookup id = some e → id.length < 2 ^ 32
  quiet : path.emitted = []

/-- Each announced teardown reached each relay. -/
def Delivered (path : Path ι) : Prop := ∀ t ∈ path.emitted, ∀ i, i ∈ t.delivered

/-- An event that shows a namespace in use at a relay. -/
def Renews (i : ι) (ns : Name) : PathEvent ι → Prop
  | .traffic j name => j = i ∧ hasPrefix name ns
  | .activity j other => j = i ∧ ns = other
  | _ => False

/-- The pipes that an event announces. -/
def announces (path : Path ι) (action : PathAction ι) (i : ι) : List DueTeardown :=
  match action.event with
  | .poll j quantum _ =>
    if j = i then ((path.stores i).due (path.clock + action.elapsed) quantum).2 else []
  | _ => []

/-- Idle pipes are torn down: none is left marked, and each is announced once, after its time. -/
structure TornDown (start : Path ι) (actions : List (PathAction ι)) : Prop where
  unmarked : ∀ earlier later, actions = earlier ++ later →
    (earlier.foldl (step crypto) start).Delivered →
      ∀ i id e, ((earlier.foldl (step crypto) start).stores i).lookup id = some e →
        e.announced = false
  returned : ∀ earlier later, actions = earlier ++ later →
    (earlier.foldl (step crypto) start).Delivered →
      ∀ i id e, ((earlier.foldl (step crypto) start).stores i).lookup id = some e →
        ∀ now quantum, e.threshold quantum < now - e.lastActivity →
          ⟨e.ns, id, e.pipeKey⟩ ∈
            (((earlier.foldl (step crypto) start).stores i).due now quantum).2
  once : ∀ earlier first middle second later,
    actions = earlier ++ first :: middle ++ second :: later →
      ∀ i, ∀ d ∈ (earlier.foldl (step crypto) start).announces first i,
        ∀ d' ∈ ((earlier ++ first :: middle).foldl (step crypto) start).announces second i,
          d.id = d'.id → ∃ action ∈ middle, Renews i d.ns action.event
  idle : ∀ earlier poll later, actions = earlier ++ poll :: later →
    ∀ i quantum seq, poll.event = .poll i quantum seq →
      ∀ d ∈ (earlier.foldl (step crypto) start).announces poll i,
        ∃ e, ((earlier.foldl (step crypto) start).stores i).lookup d.id = some e ∧ e.ns = d.ns ∧
          ∀ before action after, earlier = before ++ action :: after → Renews i d.ns action.event →
            e.threshold quantum <
              (earlier.foldl (step crypto) start).clock + poll.elapsed -
                ((before ++ [action]).foldl (step crypto) start).clock

/-- Whether a relay accepts an announced teardown. -/
def accepts (store : RelayPipeStore) (t : Emitted ι) : Bool :=
  let message := pipeTeardownInterest crypto t.teardown.ns t.teardown.id t.teardown.pipeKey t.seq
  authorize crypto relayMembership store message.1 (some message.2)

/-- An announcement of a pipe, under its key, is still on its way to a relay. -/
def Awaits (path : Path ι) (i : ι) (id : Bytes) (e : RelayEntry) : Prop :=
  ∃ t ∈ path.emitted, t.teardown.id = id ∧ t.teardown.pipeKey = e.pipeKey ∧ i ∉ t.delivered

instance (path : Path ι) (i : ι) (id : Bytes) (e : RelayEntry) : Decidable (path.Awaits i id e) :=
  inferInstanceAs (Decidable (∃ t ∈ path.emitted, _))

/-- A teardown that a relay accepts finds each other pipe of its namespace there announced itself,
with the announcement still on its way. -/
def Alone (path : Path ι) (action : PathAction ι) : Prop :=
  match action.event with
  | .deliver t i =>
    match path.emitted[t]? with
    | none => True
    | some emitted =>
      i ∈ emitted.delivered ∨ accepts crypto (path.stores i) emitted = false ∨
        ∀ e ∈ (path.stores i).lookup emitted.teardown.id, ∀ other ∈ (path.stores i).pairs,
          other.2.ns = e.ns → other.1 ≠ emitted.teardown.id → path.Awaits i other.1 other.2
  | _ => True

instance (path : Path ι) (action : PathAction ι) : Decidable (path.Alone crypto action) := by
  unfold Alone
  split
  · split <;> infer_instance
  · infer_instance

/-! ### What one event does to a pipe -/

/-- How a pipe that is still held came by its state. -/
inductive Kept (path : Path ι) (i : ι) (id : Bytes) (e : RelayEntry) :
    PathEvent ι → RelayEntry → Prop
  | same {event : PathEvent ι} (unused : ¬ Renews i e.ns event) : Kept path i id e event e
  | renewed {event : PathEvent ι} (used : Renews i e.ns event) :
      Kept path i id e event (e.renewed path.clock)
  | announced (quantum : Nanos) (seq : Bytes → UInt64) (isDue : e.isDue path.clock quantum) :
      Kept path i id e (.poll i quantum seq) { e with announced := true }
  | suppressed (t : Nat) (emitted : Emitted ι) (stands : path.emitted[t]? = some emitted)
      (new : i ∉ emitted.delivered) (accepted : accepts crypto (path.stores i) emitted)
      (reaped : RelayEntry) (held : (path.stores i).lookup emitted.teardown.id = some reaped)
      (sibling : e.ns = reaped.ns) (other : id ≠ emitted.teardown.id) :
      Kept path i id e (.deliver t i) { e with announced := true }

variable {crypto}

theorem setStore_lookup (path : Path ι) (i j : ι) (store : RelayPipeStore) :
    (path.setStore i store).stores j = if j = i then store else path.stores j :=
  Function.update_apply _ _ _ _

omit [DecidableEq ι] in
/-- A relay that does not accept a teardown is left as it is. -/
theorem heard_unaccepted {store : RelayPipeStore} {t : Emitted ι}
    (unaccepted : accepts crypto store t = false) : heard crypto store t = store := by
  refine @onTeardown_unproven crypto _ relayMembership store _ _ ?_
  intro id proven
  have accepted := @authorize_iff crypto _ relayMembership store
    (pipeTeardownInterest crypto t.teardown.ns t.teardown.id t.teardown.pipeKey t.seq).1
    (pipeTeardownInterest crypto t.teardown.ns t.teardown.id t.teardown.pipeKey t.seq).2
  rw [show authorize _ _ _ _ _ = false from unaccepted] at accepted
  exact Bool.false_ne_true (accepted.mpr ⟨rfl, id, proven⟩)

omit [DecidableEq ι] in
/-- Announced parameters are of the pipe they name. -/
theorem proven_id {store : RelayPipeStore} {t : Emitted ι} {id : Bytes}
    (proven : Proven crypto store.pipeKey
      (pipeTeardownInterest crypto t.teardown.ns t.teardown.id t.teardown.pipeKey t.seq).1
      (pipeTeardownInterest crypto t.teardown.ns t.teardown.id t.teardown.pipeKey t.seq).2 id)
    (short : t.teardown.id.length < 2 ^ 32) : id = t.teardown.id := by
  rcases proven with ⟨mac, key, decoded, _⟩
  have emitted : decodePipeTeardownParams
      (pipeTeardownInterest crypto t.teardown.ns t.teardown.id t.teardown.pipeKey t.seq).2 =
        some (t.teardown.id, _) := decode_eq_some.mpr ⟨short, Vector.length_toList, rfl⟩
  rw [decoded, Option.some.injEq, Prod.mk.injEq] at emitted
  exact emitted.1

omit [DecidableEq ι] in
/-- A relay that holds the pipe under the announced key drops it. -/
theorem heard_held {store : RelayPipeStore} {t : Emitted ι} {e : RelayEntry}
    (held : store.lookup t.teardown.id = some e) (key : t.teardown.pipeKey = e.pipeKey)
    (short : t.teardown.id.length < 2 ^ 32) :
    (heard crypto store t).lookup t.teardown.id = none := by
  have proven : Proven crypto store.pipeKey
      (pipeTeardownInterest crypto t.teardown.ns t.teardown.id t.teardown.pipeKey t.seq).1
      (pipeTeardownInterest crypto t.teardown.ns t.teardown.id t.teardown.pipeKey t.seq).2
      t.teardown.id := by
    refine ⟨_, t.teardown.pipeKey, decode_eq_some.mpr ⟨short, Vector.length_toList, rfl⟩, ?_, rfl⟩
    unfold RelayPipeStore.pipeKey
    rw [held, key]
    rfl
  exact ((relay_removes store _ _ _).mpr proven).2

/-- The announced teardowns are of pipes whose ids can be carried. -/
def Short (path : Path ι) : Prop := ∀ t ∈ path.emitted, t.teardown.id.length < 2 ^ 32

variable {e' e : RelayEntry} {d : DueTeardown}

omit [DecidableEq ι] in
theorem heard_kept {path : Path ι} {i : ι} {t : Nat} {emitted : Emitted ι} {id : Bytes}
    (short : emitted.teardown.id.length < 2 ^ 32)
    (stands : path.emitted[t]? = some emitted) (new : i ∉ emitted.delivered)
    (found : (heard crypto (path.stores i) emitted).lookup id = some e') :
    ∃ e, (path.stores i).lookup id = some e ∧ Kept crypto path i id e (.deliver t i) e' := by
  cases accepted : accepts crypto (path.stores i) emitted with
  | false =>
    rw [heard_unaccepted accepted] at found
    exact ⟨e', found, .same nofun⟩
  | true =>
    rcases (authorize_iff.mp accepted).2 with ⟨proven_id', proven⟩
    have same := proven_id proven short
    subst same
    rcases relay_onTeardown proven with ⟨reaped, held, effect⟩
    rw [show (heard crypto (path.stores i) emitted).lookup id = _ from effect id] at found
    split at found
    · cases found
    · next other =>
      rcases Option.map_eq_some_iff.mp found with ⟨e, before, rfl⟩
      refine ⟨e, before, ?_⟩
      split
      · next sibling => exact .suppressed t emitted stands new accepted reaped held sibling other
      · exact .same nofun

/-- Where a pipe is held after an event, it was before. -/
theorem event_kept {path : Path ι} (short : path.Short) {event : PathEvent ι} {i : ι} {id : Bytes}
    (found : ((path.event crypto event).stores i).lookup id = some e') :
    ∃ e, (path.stores i).lookup id = some e ∧ Kept crypto path i id e event e' := by
  cases event with
  | traffic j name =>
    rw [show (path.event crypto (.traffic j name)).stores i = _ from setStore_lookup _ _ _ _]
      at found
    split at found
    · next here =>
      subst here
      rw [RelayPipeStore.noteTraffic, HashMap.lookup_mapValues] at found
      rcases Option.map_eq_some_iff.mp found with ⟨e, before, rfl⟩
      refine ⟨e, before, ?_⟩
      split
      · next used => exact .renewed ⟨rfl, used⟩
      · next unused => exact .same fun used => unused used.2
    · next elsewhere => exact ⟨e', found, .same fun used => elsewhere used.1.symm⟩
  | activity j ns =>
    rw [show (path.event crypto (.activity j ns)).stores i = _ from setStore_lookup _ _ _ _]
      at found
    split at found
    · next here =>
      subst here
      rw [RelayPipeStore.noteActivity, HashMap.lookup_mapValues] at found
      rcases Option.map_eq_some_iff.mp found with ⟨e, before, rfl⟩
      refine ⟨e, before, ?_⟩
      split
      · next used => exact .renewed ⟨rfl, used⟩
      · next unused => exact .same fun used => unused used.2
    · next elsewhere => exact ⟨e', found, .same fun used => elsewhere used.1.symm⟩
  | poll j quantum seq =>
    rw [show (path.event crypto (.poll j quantum seq)).stores i = _ from
      setStore_lookup _ _ _ _] at found
    split at found
    · next here =>
      subst here
      rw [HashMap.lookup_mapValues] at found
      rcases Option.map_eq_some_iff.mp found with ⟨e, before, rfl⟩
      refine ⟨e, before, ?_⟩
      split
      · next isDue => exact .announced quantum seq isDue
      · exact .same nofun
    · exact ⟨e', found, .same nofun⟩
  | deliver t j =>
    unfold Path.event at found
    dsimp only at found
    split at found
    · exact ⟨e', found, .same nofun⟩
    · next emitted stands =>
      split at found
      · exact ⟨e', found, .same nofun⟩
      · next new =>
        rw [setStore_lookup] at found
        split at found
        · next here =>
          subst here
          exact heard_kept (short emitted (List.mem_of_getElem? stands)) stands new found
        · exact ⟨e', found, .same nofun⟩

/-! ### What a run preserves -/

structure Sound (path : Path ι) : Prop where
  short : path.Short
  ids : ∀ i id e, (path.stores i).lookup id = some e → id.length < 2 ^ 32
  awaited : ∀ i id e, (path.stores i).lookup id = some e → e.announced = true → path.Awaits i id e

omit [DecidableEq ι] in
theorem Awaits.congr {path next : Path ι} {i : ι} {id : Bytes}
    (awaits : path.Awaits i id e) (key : e'.pipeKey = e.pipeKey)
    (stays : ∀ t ∈ path.emitted, t.teardown.id = id → t.teardown.pipeKey = e.pipeKey →
      i ∉ t.delivered → ∃ t' ∈ next.emitted, t'.teardown = t.teardown ∧ i ∉ t'.delivered) :
    next.Awaits i id e' := by
  rcases awaits with ⟨t, among, named, keyed, waits⟩
  rcases stays t among named keyed waits with ⟨t', among', same, waits'⟩
  exact ⟨t', among', by rw [same]; exact named, by rw [same, key]; exact keyed, waits'⟩

theorem event_emitted_poll (path : Path ι) (i : ι) (quantum : Nanos) (seq : Bytes → UInt64) :
    (path.event crypto (.poll i quantum seq)).emitted = path.emitted ++
      (((path.stores i).due path.clock quantum).2.map fun d => ⟨d, seq d.id, []⟩) := rfl

theorem mem_due {store : RelayPipeStore} {now quantum : Nanos} :
    d ∈ (store.due now quantum).2 ↔
      ∃ e, store.lookup d.id = some e ∧ e.isDue now quantum ∧ d = ⟨e.ns, d.id, e.pipeKey⟩ := by
  unfold RelayPipeStore.due
  rw [List.mem_filterMap]
  constructor
  · rintro ⟨⟨id, e⟩, among, taken⟩
    split at taken
    · next isDue =>
      cases taken
      exact ⟨e, HashMap.mem_pairs.mp among, isDue, rfl⟩
    · cases taken
  · rintro ⟨e, found, isDue, same⟩
    refine ⟨(d.id, e), HashMap.mem_pairs.mpr found, ?_⟩
    rw [if_pos isDue, ← same]

/-- A delivery changes one announcement, which no other pipe waits for. -/
theorem deliver_stays {path : Path ι} {t : Nat} {i : ι} {emitted : Emitted ι}
    (stands : path.emitted[t]? = some emitted) (new : i ∉ emitted.delivered) {u : Emitted ι}
    (among : u ∈ path.emitted) (j : ι) (waits : j ∉ u.delivered)
    (other : u ≠ emitted ∨ j ≠ i) :
    ∃ u' ∈ (path.event crypto (.deliver t i)).emitted, u'.teardown = u.teardown ∧
      j ∉ u'.delivered := by
  have set : (path.event crypto (.deliver t i)).emitted =
      path.emitted.set t { emitted with delivered := i :: emitted.delivered } := by
    unfold Path.event
    simp only [stands, if_neg new]
  rw [set]
  rcases List.mem_iff_getElem?.mp among with ⟨k, found⟩
  by_cases same : t = k
  · subst same
    rw [stands, Option.some.injEq] at found
    subst found
    rcases other with different | elsewhere
    · exact absurd rfl different
    · refine ⟨{ emitted with delivered := i :: emitted.delivered }, ?_, rfl, ?_⟩
      · exact List.mem_iff_getElem?.mpr ⟨t, by
          rw [List.getElem?_set_self (List.getElem?_eq_some_iff.mp stands).1]⟩
      · intro reached
        rcases List.mem_cons.mp reached with here | before
        · exact elsewhere here
        · exact waits before
  · exact ⟨u, List.mem_iff_getElem?.mpr ⟨k, by rw [List.getElem?_set_ne same]; exact found⟩,
      rfl, waits⟩

theorem event_emitted {path : Path ι} {event : PathEvent ι} {t : Emitted ι}
    (among : t ∈ (path.event crypto event).emitted) :
    (∃ u ∈ path.emitted, u.teardown = t.teardown) ∨
      ∃ i quantum seq, event = .poll i quantum seq ∧
        t.teardown ∈ ((path.stores i).due path.clock quantum).2 := by
  cases event with
  | traffic i name => exact .inl ⟨t, among, rfl⟩
  | activity i ns => exact .inl ⟨t, among, rfl⟩
  | poll i quantum seq =>
    rw [event_emitted_poll] at among
    rcases List.mem_append.mp among with before | new
    · exact .inl ⟨t, before, rfl⟩
    · rcases List.mem_map.mp new with ⟨d, isDue, rfl⟩
      exact .inr ⟨i, quantum, seq, rfl, isDue⟩
  | deliver k i =>
    unfold Path.event at among
    dsimp only at among
    split at among
    · exact .inl ⟨t, among, rfl⟩
    · next emitted stands =>
      split at among
      · exact .inl ⟨t, among, rfl⟩
      · rcases List.mem_or_eq_of_mem_set among with before | rfl
        · exact .inl ⟨t, before, rfl⟩
        · exact .inl ⟨emitted, List.mem_of_getElem? stands, rfl⟩

theorem event_sound {path : Path ι} (sound : path.Sound) {event : PathEvent ι}
    (alone : path.Alone crypto ⟨0, event⟩) : (path.event crypto event).Sound := by
  constructor
  · intro t among
    rcases event_emitted among with ⟨u, before, same⟩ | ⟨i, quantum, seq, rfl, isDue⟩
    · rw [← same]
      exact sound.short u before
    · rcases mem_due.mp isDue with ⟨e, held, _⟩
      exact sound.ids i _ e held
  · intro i id e' found
    rcases event_kept sound.short found with ⟨e, before, _⟩
    exact sound.ids i id e before
  · intro i id e' found announced
    rcases event_kept sound.short found with ⟨e, before, kept⟩
    cases kept with
    | renewed => cases announced
    | announced quantum seq isDue =>
      refine ⟨⟨⟨e.ns, id, e.pipeKey⟩, seq id, []⟩, ?_, rfl, rfl, List.not_mem_nil⟩
      rw [event_emitted_poll]
      refine List.mem_append_right _ (List.mem_map.mpr ⟨⟨e.ns, id, e.pipeKey⟩, ?_, rfl⟩)
      exact mem_due.mpr ⟨e, before, isDue, rfl⟩
    | suppressed t emitted stands new accepted reaped held sibling other =>
      have awaits : path.Awaits i id e := by
        unfold Alone at alone
        dsimp only at alone
        rw [stands] at alone
        rcases alone with delivered | refused | waiting
        · exact absurd delivered new
        · rw [accepted] at refused
          cases refused
        · exact waiting reaped held (id, e) (HashMap.mem_pairs.mpr before) sibling other
      refine awaits.congr rfl ?_
      intro u among named _ waits
      refine deliver_stays stands new among i waits (.inl ?_)
      rintro rfl
      exact other named.symm
    | same unused =>
      refine (sound.awaited i id e' before announced).congr rfl ?_
      intro u among named keyed waits
      cases event with
      | traffic j name => exact ⟨u, among, rfl, waits⟩
      | activity j ns => exact ⟨u, among, rfl, waits⟩
      | poll j quantum seq =>
        exact ⟨u, by rw [event_emitted_poll]; exact List.mem_append_left _ among, rfl, waits⟩
      | deliver t j =>
        cases stands : path.emitted[t]? with
        | none =>
          refine ⟨u, ?_, rfl, waits⟩
          unfold Path.event
          simp only [stands]
          exact among
        | some emitted =>
          by_cases reached : j ∈ emitted.delivered
          · refine ⟨u, ?_, rfl, waits⟩
            unfold Path.event
            simp only [stands, if_pos reached]
            exact among
          · refine deliver_stays stands reached among i waits ?_
            -- the pipe's own announcement would have taken it from the store
            by_contra both
            rw [not_or, not_not, not_not] at both
            rcases both with ⟨rfl, rfl⟩
            subst named
            have gone := @heard_held ι crypto _ _ _ before keyed
              (sound.ids i _ e' before)
            unfold Path.event at found
            simp only [stands, if_neg reached] at found
            rw [setStore_lookup, if_pos rfl, gone] at found
            cases found

theorem step_sound {path : Path ι} (sound : path.Sound) {action : PathAction ι}
    (alone : path.Alone crypto action) : (path.step crypto action).Sound := by
  have waited : (path.waited action.elapsed).Sound := ⟨sound.short, sound.ids, sound.awaited⟩
  exact event_sound waited alone

theorem run_sound {start : Path ι} (fresh : start.Fresh) {actions : List (PathAction ι)}
    (alone : Throughout (step crypto) start actions (Alone crypto)) :
    (actions.foldl (step crypto) start).Sound := by
  refine @foldl_of_throughout _ _ (step crypto) Path.Sound _
    (fun _ _ sound now => step_sound sound now) start ?_ actions alone
  refine ⟨?_, fresh.short, ?_⟩
  · intro t among
    rw [fresh.quiet] at among
    cases among
  · intro i id e held announced
    rw [fresh.unannounced i id e held] at announced
    cases announced

/-- What holds of the ids in every run, whatever is marked. -/
theorem run_short {start : Path ι} (fresh : start.Fresh) (actions : List (PathAction ι)) :
    (actions.foldl (step crypto) start).Short ∧
      ∀ i id e, ((actions.foldl (step crypto) start).stores i).lookup id = some e →
        id.length < 2 ^ 32 := by
  induction actions using List.reverseRecOn with
  | nil =>
    refine ⟨?_, fresh.short⟩
    intro t among
    rw [List.foldl_nil, fresh.quiet] at among
    cases among
  | append_singleton earlier action ih =>
    rw [List.foldl_append]
    have waited : ((earlier.foldl (step crypto) start).waited action.elapsed).Short := ih.1
    constructor
    · intro t among
      rcases event_emitted among with ⟨u, before, same⟩ | ⟨i, quantum, seq, _, isDue⟩
      · rw [← same]
        exact ih.1 u before
      · rcases mem_due.mp isDue with ⟨e, held, _⟩
        exact ih.2 i _ e held
    · intro i id e' found
      rcases event_kept waited found with ⟨e, before, _⟩
      exact ih.2 i id e before

theorem event_clock (path : Path ι) (event : PathEvent ι) :
    (path.event crypto event).clock = path.clock := by
  cases event with
  | traffic | activity | poll => rfl
  | deliver t i =>
    unfold Path.event
    dsimp only
    split
    · rfl
    · split <;> rfl

theorem step_clock (path : Path ι) (action : PathAction ι) :
    (path.step crypto action).clock = path.clock + action.elapsed :=
  event_clock _ _

omit [DecidableEq ι] in
/-- A pipe keeps its namespace; it is unmarked only where it was before, or where it was used. -/
theorem Kept.back {path : Path ι} {i : ι} {id : Bytes} {event : PathEvent ι}
    (kept : Kept crypto path i id e event e') :
    e'.ns = e.ns ∧ (e'.announced = false → ¬ Renews i e.ns event → e.announced = false) ∧
      (Renews i e.ns event → e'.lastActivity = path.clock) ∧
      (e'.lastActivity = e.lastActivity ∨ e'.lastActivity = path.clock) := by
  cases kept with
  | same unused => exact ⟨rfl, fun unmarked _ => unmarked, fun used => absurd used unused, .inl rfl⟩
  | renewed used => exact ⟨rfl, fun _ unused => absurd used unused, fun _ => rfl, .inr rfl⟩
  | announced => exact ⟨rfl, nofun, nofun, .inl rfl⟩
  | suppressed => exact ⟨rfl, nofun, nofun, .inl rfl⟩

theorem step_kept {path : Path ι} (short : path.Short) {action : PathAction ι} {i : ι} {id : Bytes}
    (found : ((path.step crypto action).stores i).lookup id = some e') :
    ∃ e, (path.stores i).lookup id = some e ∧ e'.ns = e.ns ∧
      (e'.announced = false → ¬ Renews i e.ns action.event → e.announced = false) ∧
      (Renews i e.ns action.event → e'.lastActivity = (path.step crypto action).clock) ∧
      (e'.lastActivity = e.lastActivity ∨
        e'.lastActivity = (path.step crypto action).clock) := by
  have waited : (path.waited action.elapsed).Short := short
  rcases event_kept waited found with ⟨e, before, kept⟩
  rw [step_clock]
  exact ⟨e, before, kept.back⟩

/-- A pipe that is unmarked after its namespace was unused was unmarked before. -/
theorem run_unmarked {start : Path ι} (fresh : start.Fresh) (earlier : List (PathAction ι))
    {middle : List (PathAction ι)} {i : ι} {id : Bytes}
    (found : (((earlier ++ middle).foldl (step crypto) start).stores i).lookup id = some e') :
    ∃ e, ((earlier.foldl (step crypto) start).stores i).lookup id = some e ∧ e.ns = e'.ns ∧
      (e'.announced = false → (∀ action ∈ middle, ¬ Renews i e'.ns action.event) →
        e.announced = false) := by
  induction middle using List.reverseRecOn generalizing e' with
  | nil =>
    rw [List.append_nil] at found
    exact ⟨e', found, rfl, fun unmarked _ => unmarked⟩
  | append_singleton middle action ih =>
    rw [← List.append_assoc, List.foldl_append] at found
    rcases step_kept (run_short fresh (earlier ++ middle)).1 found with
      ⟨e, before, ns, back, _, _⟩
    rcases ih before with ⟨first, held, same, marked⟩
    refine ⟨first, held, same.trans ns.symm, ?_⟩
    rw [ns]
    intro unmarked unused
    refine marked (back unmarked (unused action ?_)) ?_
    · exact List.mem_append_right _ (List.mem_singleton_self action)
    · intro other among
      exact unused other (List.mem_append_left _ among)

theorem clock_le (path : Path ι) (actions : List (PathAction ι)) :
    path.clock ≤ (actions.foldl (step crypto) path).clock := by
  induction actions generalizing path with
  | nil => exact le_rfl
  | cons action rest ih =>
    have now := ih (path.step crypto action)
    rw [step_clock] at now
    exact (Nat.le_add_right _ _).trans now

/-- A pipe was last active no earlier than its namespace was used. -/
theorem run_active {start : Path ι} (fresh : start.Fresh) (before : List (PathAction ι))
    (action : PathAction ι) {after : List (PathAction ι)} {i : ι} {id : Bytes}
    (found : (((before ++ [action] ++ after).foldl (step crypto) start).stores i).lookup id = some e)
    (used : Renews i e.ns action.event) :
    ((before ++ [action]).foldl (step crypto) start).clock ≤ e.lastActivity := by
  induction after using List.reverseRecOn generalizing e with
  | nil =>
    rw [List.append_nil, List.foldl_append] at found
    rcases step_kept (run_short fresh before).1 found with ⟨first, _, ns, _, active, _⟩
    rw [ns] at used
    rw [active used, List.foldl_append]
    rfl
  | append_singleton after last ih =>
    rw [← List.append_assoc, List.foldl_append] at found
    rcases step_kept (run_short fresh (before ++ [action] ++ after)).1 found with
      ⟨first, held, ns, _, _, same | now⟩
    · rw [same]
      rw [ns] at used
      exact ih held used
    · rw [now]
      have later := @clock_le ι _ crypto
        ((before ++ [action]).foldl (step crypto) start) (after ++ [last])
      simpa only [List.foldl_append, List.foldl_cons, List.foldl_nil] using later

theorem mem_announces {path : Path ι} {action : PathAction ι} {i : ι} :
    d ∈ path.announces action i ↔ ∃ quantum seq, action.event = .poll i quantum seq ∧
      d ∈ ((path.stores i).due (path.clock + action.elapsed) quantum).2 := by
  unfold announces
  split
  · next j quantum seq polls =>
    rw [polls]
    split
    · next here =>
      subst here
      constructor
      · intro isDue
        exact ⟨quantum, seq, rfl, isDue⟩
      · rintro ⟨quantum', seq', same, isDue⟩
        cases same
        exact isDue
    · next elsewhere =>
      refine iff_of_false List.not_mem_nil ?_
      rintro ⟨quantum', seq', same, _⟩
      cases same
      exact elsewhere rfl
  · next other =>
    refine iff_of_false List.not_mem_nil ?_
    rintro ⟨quantum, seq, same, _⟩
    exact other _ _ _ same

theorem announced_marked {path : Path ι} {action : PathAction ι} {i : ι}
    (announced : d ∈ path.announces action i) :
    ∃ e, ((path.step crypto action).stores i).lookup d.id = some e ∧ e.ns = d.ns ∧
      e.announced = true := by
  rcases mem_announces.mp announced with ⟨quantum, seq, polls, isDue⟩
  rcases mem_due.mp isDue with ⟨e, held, due, same⟩
  refine ⟨{ e with announced := true }, ?_, ?_, rfl⟩
  · unfold step
    rw [polls, show ((path.waited action.elapsed).event crypto (.poll i quantum seq)).stores i = _
      from setStore_lookup _ _ _ _, if_pos rfl]
    refine (HashMap.lookup_mapValues _ _ _).trans ?_
    rw [show (path.waited action.elapsed).stores = path.stores from rfl, held, Option.map_some]
    exact congrArg some (if_pos due)
  · rw [same]

/-- Where no accepted teardown marks another pipe that nothing is announced for, idle pipes are torn
down. -/
theorem torn_down {start : Path ι} (fresh : start.Fresh) {actions : List (PathAction ι)}
    (alone : Throughout (step crypto) start actions (Alone crypto)) :
    start.TornDown crypto actions := by
  have unmarked : ∀ earlier later, actions = earlier ++ later →
      (earlier.foldl (step crypto) start).Delivered →
        ∀ i id e, ((earlier.foldl (step crypto) start).stores i).lookup id = some e →
          e.announced = false := by
    rintro earlier later rfl delivered i id e held
    by_contra announced
    have sound := run_sound fresh (throughout_append.mp alone).1
    rcases sound.awaited i id e held ((Bool.not_eq_false _).mp announced) with
      ⟨t, among, _, _, waits⟩
    exact waits (delivered t among i)
  refine ⟨unmarked, ?_, ?_, ?_⟩
  · intro earlier later split delivered i id e held now quantum idle
    have quiet := unmarked earlier later split delivered i id e held
    refine mem_due.mpr ⟨e, held, ?_, rfl⟩
    unfold RelayEntry.isDue
    rw [quiet, decide_eq_true idle]
    rfl
  · intro earlier first middle second later _ i d returned d' returned' same
    by_contra unused
    rw [not_exists] at unused
    rcases mem_announces.mp returned' with ⟨quantum, seq, _, isDue⟩
    rcases mem_due.mp isDue with ⟨e', held', due', _⟩
    have quiet : e'.announced = false := by
      unfold RelayEntry.isDue at due'
      rw [Bool.and_eq_true, Bool.not_eq_true'] at due'
      exact due'.1
    rw [show earlier ++ first :: middle = earlier ++ [first] ++ middle by
      rw [List.append_assoc]; rfl] at held'
    rcases run_unmarked fresh (earlier ++ [first]) held' with ⟨e, held, ns, marked⟩
    rcases announced_marked returned with ⟨e₁, held₁, ns₁, announced⟩
    rw [List.foldl_append, ← same] at held
    have both : e₁ = e := Option.some.inj (held₁.symm.trans held)
    subst both
    rw [marked quiet] at announced
    · cases announced
    · intro action among used
      rw [← ns, ns₁] at used
      exact unused action ⟨among, used⟩
  · rintro earlier poll later _ i quantum seq polls d returned
    rcases mem_announces.mp returned with ⟨quantum', seq', polls', isDue⟩
    rw [polls] at polls'
    cases polls'
    rcases mem_due.mp isDue with ⟨e, held, due, same⟩
    refine ⟨e, held, by rw [same], ?_⟩
    rintro before action after rfl used
    have held' : (((before ++ [action] ++ after).foldl (step crypto) start).stores i).lookup d.id =
        some e := by
      rw [List.append_assoc]
      exact held
    rw [same] at used
    have active := run_active fresh before action held' used
    unfold RelayEntry.isDue at due
    rw [Bool.and_eq_true, decide_eq_true_eq] at due
    exact due.2.trans_le (Nat.sub_le_sub_left active _)

/-! ### One relay with two pipes, and two relays with one -/

namespace Example

open NdnExt.Pipes.Example

def near : RelayPipeStore := (∅ : RelayPipeStore).insert' 0 [1] ns 0 [10] 0

def both : RelayPipeStore := near.insert' 0 [2] ns 2 [20] 0

def oneRelay : Path Unit := ⟨0, fun _ => both, []⟩

def twoRelays : Path Bool := ⟨0, fun _ => near, []⟩

theorem fresh_of_near {id : Bytes} (held : near.lookup id = some e) :
    e.announced = false ∧ e.lastActivity ≤ 0 ∧ id.length < 2 ^ 32 := by
  unfold near RelayPipeStore.insert' at held
  rw [HashMap.lookup_insert_eq] at held
  split at held
  · next same =>
    cases held
    subst same
    exact ⟨rfl, le_rfl, by decide⟩
  · cases held

theorem twoRelays_fresh : twoRelays.Fresh where
  unannounced _ _ _ held := (fresh_of_near held).1
  before _ _ _ held := (fresh_of_near held).2.1
  short _ _ _ held := (fresh_of_near held).2.2
  quiet := rfl

/-- The nearer relay announces the pipe, and both hear of it. -/
def announcing : List (PathAction Bool) :=
  [⟨12, .poll false 40 fun _ => 7⟩, ⟨1, .deliver 0 false⟩, ⟨1, .deliver 0 true⟩]

theorem torn_down_at_both : twoRelays.TornDown oneCrypto announcing :=
  torn_down twoRelays_fresh (by decide +kernel)

/-- The nearer pipe's teardown marks the other pipe of its namespace, for good. -/
def reaping : List (PathAction Unit) := [⟨12, .poll () 40 fun _ => 7⟩, ⟨1, .deliver 0 ()⟩]

theorem sibling_stays_marked :
    (∀ id e, (oneRelay.stores ()).lookup id = some e → e.announced = false) ∧
    (reaping.foldl (step oneCrypto) oneRelay).Delivered ∧
    ∃ e, ((reaping.foldl (step oneCrypto) oneRelay).stores ()).lookup [2] = some e ∧
      e.announced = true := by
  refine ⟨?_, ?_, ?_⟩
  · intro id e held
    rw [show oneRelay.stores () = near.insert' 0 [2] ns 2 [20] 0 from rfl] at held
    unfold RelayPipeStore.insert' at held
    rw [HashMap.lookup_insert_eq] at held
    split at held
    · cases held
      rfl
    · exact (fresh_of_near held).1
  · have reached : ∀ t ∈ (reaping.foldl (step oneCrypto) oneRelay).emitted, () ∈ t.delivered := by
      decide +kernel
    exact fun t among _ => reached t among
  · refine ⟨⟨ns, 2, [20], 0, 0, true⟩, ?_, rfl⟩
    decide +kernel

end Example

end Path

end NdnExt.Pipes
