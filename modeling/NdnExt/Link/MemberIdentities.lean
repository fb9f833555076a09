import NdnExt.Link.Presence
import NdnExt.Link.TableSteps

/-! Which identities a linked device is listed with. -/

namespace NdnExt.Link

open NdnExt.Lib List LinkTable

/-- `recorded` are the registrations that were recorded for each device since its link began, the
newest first, each with its generation. -/
structure Linking where
  table : LinkTable
  recorded : KeyFingerprint → List (Nat × Registration)

inductive TableCall where
  | register (link : Registration) (mine : Option KeyFingerprint)
  | unregister (fingerprint : KeyFingerprint) (generation : Nat)

/-- The identities of the newest registration that has any. -/
def latestIdentities (recorded : List (Nat × Registration)) : List Identity :=
  ((recorded.map fun r => r.2.identities).find? fun identities => !identities.isEmpty).getD []

namespace Linking

def start : Linking := ⟨.empty, fun _ => []⟩

def step (s : Linking) : TableCall → Linking
  | .register link mine =>
    let registered := s.table.register link mine
    { table := registered.1
      recorded := match registered.2.2 with
        | none => s.recorded
        | some generation => Function.update s.recorded link.fingerprint
            ((generation, link) :: s.recorded link.fingerprint) }
  | .unregister fingerprint generation =>
    let table := (s.table.unregister fingerprint generation).1
    { table := table
      recorded :=
        if table.isLinked fingerprint then s.recorded
        else Function.update s.recorded fingerprint [] }

def run (actions : List TableCall) : Linking := actions.foldl step start

/-- The registration that recorded the path of a generation. -/
def recording (s : Linking) (fingerprint : KeyFingerprint) (generation : Nat) :
    Option Registration :=
  (s.recorded fingerprint).lookup generation

/-- A device with a link path is listed for the namespaces of some identities, unless the
registration of that path was for an enrollment link. -/
def Listed (s : Linking) (identities : KeyFingerprint → Registration → List Identity) : Prop :=
  ∀ fingerprint p, p ∈ s.table.paths fingerprint → p.path.kind = .link →
    ∃ link, s.recording fingerprint p.generation = some link ∧ link.path = p.path ∧
      ∀ ns m, m.fingerprint = fingerprint → (m ∈ s.table.members ns ↔
        link.enrolling = [] ∧
          (identities fingerprint link).find? (fun id => id.ns = ns) = some m.identity ∧
          m.handle = p.path.handle)

/-- Two states list a device alike. -/
def SameMember (before after : Linking) (fingerprint : KeyFingerprint) : Prop :=
  ∀ ns m, m.fingerprint = fingerprint →
    (m ∈ after.table.members ns ↔ m ∈ before.table.members ns)

/-- What the paths of a link, as they join and leave, make of what is recorded about it. -/
structure Follows (s : Linking) : Prop where
  listed : s.Listed fun fingerprint _ => latestIdentities (s.recorded fingerprint)
  joins : ∀ link mine before, link.path.kind = .direct →
    s.table.live.lookup link.fingerprint = some before →
    (∃ after, (s.step (.register link mine)).table.live.lookup link.fingerprint = some after ∧
      after.shown = before.shown ∧ after.enrolling = before.enrolling) ∧
    (link.identities = [] → s.SameMember (s.step (.register link mine)) link.fingerprint)
  leaves : ∀ fingerprint p, p ∈ s.table.paths fingerprint → p.path.kind = .direct →
    (∀ after, (s.step (.unregister fingerprint p.generation)).table.live.lookup fingerprint =
        some after →
      ∃ before, s.table.live.lookup fingerprint = some before ∧
        after.shown = before.shown ∧ after.enrolling = before.enrolling) ∧
    s.SameMember (s.step (.unregister fingerprint p.generation)) fingerprint
  ends : ∀ fingerprint p, p ∈ s.table.paths fingerprint → p.path.kind = .link →
    ∀ ns, ∀ m ∈ (s.step (.unregister fingerprint p.generation)).table.members ns,
      m.fingerprint ≠ fingerprint

/-! ### The two operations -/

variable {table : LinkTable} {p : LivePath} {fingerprint : KeyFingerprint}

theorem mem_members {ns : Name} {m : Member} :
    m ∈ table.members ns ↔ ∃ link, table.live.lookup m.fingerprint = some link ∧
      link.enrolling = [] ∧ link.identities.find? (fun id => id.ns = ns) = some m.identity ∧
      ∃ p, (link.ofKind .link).head? = some p ∧ p.path.handle = m.handle := by
  have first : ∀ link : LiveLink, (link.ofKind .link).head? =
      link.paths.find? fun p => p.path.kind = .link := fun link => List.head?_filter
  simp only [members, memberOf, List.mem_filterMap, List.mem_filter,
    Prod.exists, HashMap.mem_pairs, List.isEmpty_iff, first]
  constructor
  · rintro ⟨key, link, ⟨held, full⟩, made⟩
    rcases Option.bind_eq_some_iff.mp made with ⟨identity, found, made⟩
    rcases Option.bind_eq_some_iff.mp made with ⟨p, head, made⟩
    cases made
    exact ⟨link, held, full, found, p, head, rfl⟩
  · rintro ⟨link, held, full, found, p, head, handle⟩
    refine ⟨m.fingerprint, link, ⟨held, full⟩, ?_⟩
    rw [found, head]
    change some (Member.mk _ _ p.path.handle) = some m
    rw [handle]

theorem register_some {link : Registration} {mine : Option KeyFingerprint}
    {generation : Nat} (recorded : (table.register link mine).2.2 = some generation) :
    generation = table.generation + 1 := by
  rcases table.register_cases link mine with ⟨_, _, _, refused⟩ | ⟨_, _, _, given⟩
  · rw [refused] at recorded
    cases recorded
  · rw [given] at recorded
    exact (Option.some.inj recorded).symm

theorem latestIdentities_cons (generation : Nat) (link : Registration)
    (recorded : List (Nat × Registration)) :
    latestIdentities ((generation, link) :: recorded) =
      if link.identities = [] then latestIdentities recorded else link.identities := by
  unfold latestIdentities
  by_cases none : link.identities = []
  · simp [none]
  · rw [map_cons, List.find?_cons_of_pos (by simp [none]), if_neg none, Option.getD_some]

/-- What a registration does: nothing to a link, or it is recorded. -/
theorem register_step (s : Linking) (link : Registration) (mine : Option KeyFingerprint) :
    ((s.step (.register link mine)).table.live = s.table.live ∧
      (s.step (.register link mine)).recorded = s.recorded) ∨
    ((∀ key, (s.step (.register link mine)).table.live.lookup key =
        if key = link.fingerprint then
          some (registered (s.table.live.lookup link.fingerprint) link (s.table.generation + 1))
        else s.table.live.lookup key) ∧
      (s.step (.register link mine)).recorded = Function.update s.recorded link.fingerprint
        ((s.table.generation + 1, link) :: s.recorded link.fingerprint)) := by
  rcases register_lookup s.table link mine with ⟨_, same, refused⟩ | ⟨_, generation, given, made⟩
  · refine Or.inl ⟨same, ?_⟩
    unfold step
    dsimp only
    rw [refused]
  · have next := register_some given
    subst next
    refine Or.inr ⟨made, ?_⟩
    unfold step
    dsimp only
    rw [given]

/-- What the end of a path does: nothing, or the link stays without it or ends. -/
theorem unregister_step (s : Linking) (fingerprint : KeyFingerprint) (generation : Nat) :
    (s.step (.unregister fingerprint generation)).table.live = s.table.live ∨
    ∃ link p, s.table.live.lookup fingerprint = some link ∧
      link.paths.find? (fun p => p.generation = generation) = some p ∧
      ∀ key, (s.step (.unregister fingerprint generation)).table.live.lookup key =
        if key = fingerprint then remaining link generation else s.table.live.lookup key := by
  rcases unregister_lookup s.table fingerprint generation with
    ⟨_, same⟩ | ⟨link, p, ended, held, found, _, _, _, made⟩
  · exact Or.inl same
  · exact Or.inr ⟨link, p, held, found, made⟩

theorem recorded_unregister (s : Linking) (fingerprint : KeyFingerprint) (generation : Nat)
    (key : KeyFingerprint) :
    (s.step (.unregister fingerprint generation)).recorded key =
      if key = fingerprint ∧
          (s.step (.unregister fingerprint generation)).table.live.lookup fingerprint = none then []
      else s.recorded key := by
  unfold step isLinked
  dsimp only
  cases left : (s.table.unregister fingerprint generation).1.live.lookup fingerprint with
  | none =>
    by_cases same : key = fingerprint
    · subst same
      simp
    · simp [same]
  | some link => simp

/-! ### What each call keeps -/

/-- The records of one device, and what its link is. -/
structure LinkKept (recorded : List (Nat × Registration)) (latest : Nat)
    (held : Option LiveLink) : Prop where
  unlinked : held = none → recorded = []
  older : ∀ r ∈ recorded, r.1 ≤ latest
  identities : ∀ link, held = some link → link.identities = latestIdentities recorded
  paths : ∀ link, held = some link → ∀ p ∈ link.paths,
    ∃ r, recorded.lookup p.generation = some r ∧ r.path = p.path ∧
      (p.path.kind = .link → link.enrolling = r.enrolling)
  single : ∀ link, held = some link → ∀ p ∈ link.paths, ∀ q ∈ link.paths,
    p.path.kind = .link → q.path.kind = .link → p = q
  distinct : ∀ link, held = some link → (link.paths.map LivePath.generation).Nodup

variable {recorded : List (Nat × Registration)} {latest : Nat}

theorem LinkKept.none (latest : Nat) : LinkKept [] latest none where
  unlinked _ := rfl
  older r among := by cases among
  identities link held := by cases held
  paths link held := by cases held
  single link held := by cases held
  distinct link held := by cases held

theorem LinkKept.later {held : Option LiveLink} (kept : LinkKept recorded latest held)
    {next : Nat} (order : latest ≤ next) : LinkKept recorded next held :=
  { kept with older := fun r among => (kept.older r among).trans order }

theorem LinkKept.generation_le {link : LiveLink} (kept : LinkKept recorded latest (some link))
    (among : p ∈ link.paths) : p.generation ≤ latest := by
  rcases kept.paths link rfl p among with ⟨r, found, _⟩
  rcases lookup_eq_some_iff.mp found with ⟨newer, older, split, _⟩
  exact kept.older (p.generation, r) (by rw [split]; simp)

/-- A path that stays keeps the registration that recorded it. -/
theorem LinkKept.lookup_cons {link : LiveLink} (kept : LinkKept recorded latest (some link))
    (new : Registration) (among : p ∈ link.paths) :
    ((latest + 1, new) :: recorded).lookup p.generation = recorded.lookup p.generation := by
  have less := kept.generation_le among
  have different : (p.generation == latest + 1) = false := by
    rw [beq_eq_false_iff_ne]
    omega
  rw [List.lookup_cons, different]

theorem LinkKept.registered {held : Option LiveLink} (kept : LinkKept recorded latest held)
    (link : Registration) :
    LinkKept ((latest + 1, link) :: recorded) (latest + 1)
      (some (registered held link (latest + 1))) where
  unlinked absent := by cases absent
  older r among := by
    rcases List.mem_cons.mp among with rfl | earlier
    · exact le_rfl
    · exact (kept.older r earlier).trans (Nat.le_succ _)
  identities now held' := by
    cases held'
    rw [registered_identities, latestIdentities_cons, shownWith]
    split
    · cases held with
      | none => rw [kept.unlinked rfl]; rfl
      | some before => exact kept.identities before rfl
    · rfl
  paths now held' p among := by
    cases held'
    rcases mem_registered_paths.mp among with rfl | ⟨before, rfl, earlier, kind⟩
    · refine ⟨link, by rw [List.lookup_cons, beq_self_eq_true], rfl, ?_⟩
      intro full
      exact registered_enrolling held full
    · rcases kept.paths before rfl p earlier with ⟨r, found, same, enrolling⟩
      refine ⟨r, by rw [kept.lookup_cons link earlier]; exact found, same, ?_⟩
      intro full
      rw [full] at kind
      rw [← enrolling full]
      simp [Link.registered, LiveLink.joined, Ne.symm kind]
  single now held' p among q among' full full' := by
    cases held'
    rcases mem_registered_paths.mp among with rfl | ⟨before, rfl, earlier, kind⟩
    · rcases mem_registered_paths.mp among' with rfl | ⟨before, rfl, earlier', kind'⟩
      · rfl
      · exact absurd (full'.trans full.symm) kind'
    · rcases mem_registered_paths.mp among' with rfl | ⟨before', same, earlier', kind'⟩
      · exact absurd (full.trans full'.symm) kind
      · cases same
        exact kept.single before rfl p earlier q earlier' full full'
  distinct now held' := by
    cases held'
    cases held with
    | none => exact List.nodup_singleton _
    | some before =>
      have others := (kept.distinct before rfl).sublist
        ((List.filter_sublist (p := fun p => p.path.kind ≠ link.path.kind)).map
          LivePath.generation)
      change (((before.paths.filter _) ++ [_]).map LivePath.generation).Nodup
      rw [List.map_append, List.nodup_append]
      refine ⟨others, List.nodup_singleton _, ?_⟩
      intro generation among other among' same
      rcases List.mem_map.mp among with ⟨p, inside, rfl⟩
      have less := kept.generation_le (List.mem_of_mem_filter inside)
      rw [List.map_singleton, List.mem_singleton] at among'
      dsimp only at among'
      omega

theorem LinkKept.remaining {link after : LiveLink} (kept : LinkKept recorded latest (some link))
    {generation : Nat} (stays : remaining link generation = some after) :
    LinkKept recorded latest (some after) := by
  unfold Link.remaining at stays
  dsimp only at stays
  split at stays
  · cases stays
  · cases stays
    refine ⟨(by intro absent; cases absent), kept.older, ?_, ?_, ?_, ?_⟩
    · intro now held
      cases held
      exact kept.identities link rfl
    · intro now held p among
      cases held
      exact kept.paths link rfl p (mem_of_mem_eraseP among)
    · intro now held p among q among' full full'
      cases held
      exact kept.single link rfl p (mem_of_mem_eraseP among) q
        (mem_of_mem_eraseP among') full full'
    · intro now held
      cases held
      exact (kept.distinct link rfl).sublist (eraseP_sublist.map _)

def Kept (s : Linking) : Prop :=
  ∀ key, LinkKept (s.recorded key) s.table.generation (s.table.live.lookup key)

variable {s : Linking}

theorem step_kept (kept : s.Kept) (action : TableCall) : (s.step action).Kept := by
  intro key
  cases action with
  | register link mine =>
    have later : (s.step (.register link mine)).table.generation = s.table.generation + 1 :=
      register_generation
    rw [later]
    rcases s.register_step link mine with ⟨same, same'⟩ | ⟨made, recorded⟩
    · rw [same, same']
      exact (kept key).later (Nat.le_succ _)
    · rw [made, recorded]
      split
      · next same =>
        subst same
        rw [Function.update_self]
        exact (kept link.fingerprint).registered link
      · next other =>
        rw [Function.update_of_ne other]
        exact (kept key).later (Nat.le_succ _)
  | unregister fingerprint generation =>
    have same : (s.step (.unregister fingerprint generation)).table.generation =
        s.table.generation := unregister_generation fingerprint generation
    rw [same]
    rw [recorded_unregister]
    by_cases here : key = fingerprint
    · subst here
      rcases s.unregister_step key generation with same | ⟨link, p, held, _, made⟩
      · rw [same]
        cases held : s.table.live.lookup key with
        | none =>
          rw [if_pos ⟨rfl, rfl⟩]
          exact LinkKept.none _
        | some link =>
          rw [if_neg (by simp), ← held]
          exact kept key
      · rw [made, if_pos rfl]
        cases stays : Link.remaining link generation with
        | none =>
          rw [if_pos ⟨rfl, rfl⟩]
          exact LinkKept.none _
        | some after =>
          rw [if_neg (by simp)]
          have before := kept key
          rw [held] at before
          exact before.remaining stays
    · rw [if_neg fun both => here both.1]
      have elsewhere : (s.step (.unregister fingerprint generation)).table.live.lookup key =
          s.table.live.lookup key := by
        rcases s.unregister_step fingerprint generation with same | ⟨_, _, _, _, made⟩
        · rw [same]
        · rw [made, if_neg here]
      rw [elsewhere]
      exact kept key

theorem run_kept (actions : List TableCall) : (run actions).Kept := by
  induction actions using List.reverseRecOn with
  | nil => exact fun key => LinkKept.none _
  | append_singleton actions action ih =>
    rw [run, foldl_append]
    exact step_kept ih action

/-! ### Who is listed -/

theorem mem_paths :
    p ∈ table.paths fingerprint ↔
      ∃ link, table.live.lookup fingerprint = some link ∧ p ∈ link.paths := by
  unfold paths
  cases table.live.lookup fingerprint <;> simp

theorem LinkKept.head_ofKind {link : LiveLink} (kept : LinkKept recorded latest (some link))
    (among : p ∈ link.paths) (full : p.path.kind = .link) :
    (link.ofKind .link).head? = some p := by
  have inside : p ∈ link.ofKind .link := mem_filter.mpr ⟨among, decide_eq_true full⟩
  cases first : (link.ofKind .link).head? with
  | none =>
    rw [List.head?_eq_none_iff] at first
    rw [first] at inside
    cases inside
  | some q =>
    rcases mem_filter.mp (mem_of_head? first) with ⟨among', full'⟩
    rw [kept.single link rfl q among' p among (of_decide_eq_true full') full]

theorem Kept.listed (kept : s.Kept) :
    s.Listed fun fingerprint _ => latestIdentities (s.recorded fingerprint) := by
  intro fingerprint p among full
  rcases mem_paths.mp among with ⟨link, held, among⟩
  have known := kept fingerprint
  rw [held] at known
  rcases known.paths link rfl p among with ⟨r, found, same, enrolling⟩
  refine ⟨r, found, same, ?_⟩
  intro ns m here
  dsimp only
  rw [mem_members, here, held, ← enrolling full, ← known.identities link rfl]
  constructor
  · rintro ⟨now, same, open', listed, q, head, handle⟩
    cases same
    rw [known.head_ofKind among full] at head
    cases head
    exact ⟨open', listed, handle.symm⟩
  · rintro ⟨open', listed, handle⟩
    exact ⟨link, rfl, open', listed, p, known.head_ofKind among full, handle.symm⟩

/-- What a member is listed by. -/
theorem sameMember_of_link {before after : Linking}
    {old new : LiveLink} (held : before.table.live.lookup fingerprint = some old)
    (held' : after.table.live.lookup fingerprint = some new)
    (enrolling : new.enrolling = old.enrolling) (identities : new.identities = old.identities)
    (paths : new.ofKind .link = old.ofKind .link) : before.SameMember after fingerprint := by
  intro ns m here
  rw [mem_members, mem_members, here, held, held']
  simp only [Option.some.injEq, exists_eq_left', enrolling, identities, paths]

theorem sameMember_of_lookup {before after : Linking}
    (same : after.table.live.lookup fingerprint = before.table.live.lookup fingerprint) :
    before.SameMember after fingerprint := by
  intro ns m here
  rw [mem_members, mem_members, here, same]

theorem direct_joins {link : Registration} (mine : Option KeyFingerprint) {before : LiveLink}
    (direct : link.path.kind = .direct)
    (held : s.table.live.lookup link.fingerprint = some before) :
    (∃ after, (s.step (.register link mine)).table.live.lookup link.fingerprint = some after ∧
      after.shown = before.shown ∧ after.enrolling = before.enrolling) ∧
    (link.identities = [] → s.SameMember (s.step (.register link mine)) link.fingerprint) := by
  rcases s.register_step link mine with ⟨same, _⟩ | ⟨made, _⟩
  · refine ⟨⟨before, by rw [same]; exact held, rfl, rfl⟩, ?_⟩
    intro _
    exact sameMember_of_lookup (by rw [same])
  · have now := made link.fingerprint
    rw [if_pos rfl, held] at now
    have shown : (registered (some before) link (s.table.generation + 1)).shown =
        before.shown := by
      simp [registered, LiveLink.joined, direct]
    have enrolling : (registered (some before) link (s.table.generation + 1)).enrolling =
        before.enrolling := by
      simp [registered, LiveLink.joined, direct]
    refine ⟨⟨_, now, shown, enrolling⟩, ?_⟩
    intro none
    apply sameMember_of_link held now enrolling
    · rw [registered_identities, shownWith, if_pos none]
      rfl
    · have kinds : ∀ p : LivePath, (decide (p.path.kind = .link) &&
          decide (p.path.kind ≠ .direct)) = decide (p.path.kind = .link) := by
        intro p
        cases p.path.kind <;> rfl
      simp only [registered, LiveLink.joined, LiveLink.ofKind, direct, filter_append,
        filter_filter, kinds]
      simp [direct]

theorem Kept.eq_of_generation (kept : s.Kept) {link : LiveLink}
    (held : s.table.live.lookup fingerprint = some link) {q : LivePath} (among : p ∈ link.paths)
    (among' : q ∈ link.paths) (same : p.generation = q.generation) : p = q :=
  inj_on_of_nodup_map ((kept fingerprint).distinct link held) among among' same

theorem direct_leaves (kept : s.Kept)
    (among : p ∈ s.table.paths fingerprint) (direct : p.path.kind = .direct) :
    (∀ after, (s.step (.unregister fingerprint p.generation)).table.live.lookup fingerprint =
        some after →
      ∃ before, s.table.live.lookup fingerprint = some before ∧
        after.shown = before.shown ∧ after.enrolling = before.enrolling) ∧
    s.SameMember (s.step (.unregister fingerprint p.generation)) fingerprint := by
  rcases s.unregister_step fingerprint p.generation with same | ⟨link, q, held, found, made⟩
  · rw [same]
    refine ⟨?_, sameMember_of_lookup (by rw [same])⟩
    intro after held
    exact ⟨after, held, rfl, rfl⟩
  · have now := made fingerprint
    rw [if_pos rfl] at now
    rcases mem_paths.mp among with ⟨link', held', among⟩
    rw [held] at held'
    cases held'
    have mine : q = p := kept.eq_of_generation held (mem_of_find?_eq_some found) among
      (by simpa using List.find?_some found)
    subst mine
    rcases eraseP_of_find? found with ⟨earlier, later, split, erased⟩
    have full : (link.paths.eraseP fun p => p.generation = q.generation).filter
        (fun p => p.path.kind = .link) = link.ofKind .link := by
      rw [LiveLink.ofKind, erased, split]
      simp [direct]
    unfold remaining at now
    dsimp only at now
    split at now
    · next emptied =>
      rw [isEmpty_iff.mp emptied] at full
      rw [now]
      refine ⟨(by intro after stays; cases stays), ?_⟩
      intro ns m here
      rw [mem_members, mem_members, here, held, now]
      refine iff_of_false ?_ ?_
      · rintro ⟨_, impossible, _⟩
        cases impossible
      · rintro ⟨_, same, _, _, p, head, _⟩
        cases same
        rw [← full] at head
        cases head
    · refine ⟨?_, sameMember_of_link held now rfl rfl full⟩
      intro after stays
      rw [now] at stays
      cases stays
      exact ⟨link, held, rfl, rfl⟩

theorem Kept.not_mem_eraseP (kept : s.Kept) {link : LiveLink}
    (held : s.table.live.lookup fingerprint = some link) (p : LivePath) :
    p ∉ link.paths.eraseP fun q => q.generation = p.generation := by
  intro stays
  have among := mem_of_mem_eraseP stays
  have found : (link.paths.find? fun q => q.generation = p.generation).isSome = true := by
    rw [List.find?_isSome]
    exact ⟨p, among, decide_eq_true rfl⟩
  rcases Option.isSome_iff_exists.mp found with ⟨q, found⟩
  have same := kept.eq_of_generation held (mem_of_find?_eq_some found) among
    (by simpa using List.find?_some found)
  subst same
  rcases eraseP_of_find? found with ⟨earlier, later, split, erased⟩
  have distinct := List.Nodup.of_map _ ((kept fingerprint).distinct link held)
  rw [split, nodup_middle, nodup_cons] at distinct
  rw [erased] at stays
  exact distinct.1 stays

theorem link_ends (kept : s.Kept)
    (among : p ∈ s.table.paths fingerprint) (full : p.path.kind = .link) {ns : Name} {m : Member}
    (listed : m ∈ (s.step (.unregister fingerprint p.generation)).table.members ns) :
    m.fingerprint ≠ fingerprint := by
  intro here
  rcases mem_members.mp listed with ⟨after, stays, _, _, q, head, _⟩
  rcases mem_filter.mp (mem_of_head? head) with ⟨inside, full'⟩
  have left := mem_paths.mpr ⟨after, stays, inside⟩
  rw [here] at left
  change q ∈ (s.table.unregister fingerprint p.generation).1.paths fingerprint at left
  rw [unregister_paths, if_pos rfl] at left
  rcases mem_paths.mp among with ⟨link, held, among⟩
  have same : s.table.paths fingerprint = link.paths := by
    unfold paths
    rw [held]
    rfl
  rw [same] at left
  have equal := (kept fingerprint).single link held q (mem_of_mem_eraseP left) p among
    (of_decide_eq_true full') full
  subst equal
  exact kept.not_mem_eraseP held q left

/-- The identities a device is listed with are the newest that a path of its link brought. -/
theorem run_follows (actions : List TableCall) : (run actions).Follows where
  listed := (run_kept actions).listed
  joins _ mine _ direct held := direct_joins mine direct held
  leaves _ _ among direct := direct_leaves (run_kept actions) among direct
  ends _ _ among full _ _ listed := link_ends (run_kept actions) among full listed

/-! ### A direct path that is admitted by another identity -/

namespace Joining

def home : Name := ⟨[.generic [104]]⟩

def fleet : Name := ⟨[.generic [102]]⟩

def node (ns : Name) : Identity := ⟨ns, 1, ns, ⟨"node"⟩, [ns], none⟩

def key : KeyFingerprint := ⟨.replicate 32 1⟩

def path (kind : PathKind) (connection : Nat) : LinkPath :=
  ⟨⟨connection⟩, ⟨connection⟩, .accepted, kind, []⟩

def registration (kind : PathKind) (connection : Nat) (ns : Name) : Registration :=
  ⟨key, none, [node ns], [], [], path kind connection⟩

def calls : List TableCall :=
  [.register (registration .link 0 home) none, .register (registration .direct 1 fleet) none]

theorem direct_path_replaces : ¬ (run calls).Listed fun _ link => link.identities := by
  intro listed
  have paths : (run calls).table.paths key = [⟨path .link 0, 1⟩, ⟨path .direct 1, 2⟩] := rfl
  rcases listed key ⟨path .link 0, 1⟩ (by rw [paths]; simp) rfl with ⟨link, found, _, lists⟩
  have recorded : (run calls).recording key 1 = some (registration .link 0 home) := rfl
  rw [recorded, Option.some.injEq] at found
  subst found
  have none : (run calls).table.members home = [] := rfl
  have member := (lists home ⟨key, node home, ⟨0⟩⟩ rfl).mpr ⟨rfl, rfl, rfl⟩
  rw [none] at member
  cases member

end Joining
end Linking
end NdnExt.Link
