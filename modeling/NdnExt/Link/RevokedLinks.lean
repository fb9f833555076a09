import Mathlib.Data.Finset.Basic
import NdnExt.Link.AdmitsSoundly
import NdnExt.Link.TableSteps

/-! Links are made and trust contexts adopted at the same time. -/

namespace NdnExt.Link

open NdnExt.Lib

/-- What a task has to do next. -/
inductive LinkOp where
  | register (link : Registration) (mine : Option KeyFingerprint)
  | addRoute (face : FaceId) (name : Name)
  | untilEnded (fingerprint : KeyFingerprint) (generation : Nat) (face : FaceId)
  | removeFace (face : FaceId)
  | closeRevoked (ctx : TrustContext)
  | removeRoute (face : FaceId) (name : Name)

/-- `contexts` are the newest ones adopted, `routed` the forwarder's routes. The face and the
connection of a path are numbered by the task that makes it. -/
structure Links where
  table : LinkTable
  contexts : List TrustContext
  closes : List Close
  routed : Finset (FaceId × Name)
  tasks : List (List LinkOp)

inductive LinksAction where
  | establish (link : Registration) (mine : Option KeyFingerprint)
  | adopt (ctx : TrustContext)
  | run (task : Nat)

/-- The contexts held revoke no certificate of the identity. -/
def judged (contexts : List TrustContext) (id : Identity) : Bool :=
  decide (Covers id.ns id.device) &&
    contexts.all fun ctx => ctx.ns ≠ id.ns || !id.certificates.any ctx.isRevoked

namespace Links

def start (contexts : List TrustContext) : Links := ⟨.empty, contexts, [], ∅, []⟩

def spawn (state : Links) (ops : List LinkOp) : Links :=
  { state with tasks := state.tasks ++ [ops] }

/-- A path is decided on, and admitted on a face and a connection of its own. -/
def establish (state : Links) (link : Registration) (mine : Option KeyFingerprint) : Links :=
  if link.identities.all (judged state.contexts) then
    let number := state.tasks.length
    let path := { link.path with face := ⟨number⟩, handle := ⟨number⟩ }
    state.spawn [.register { link with path } mine]
  else state

def adopt (state : Links) (ctx : TrustContext) : Links :=
  let contexts := (state.contexts.filter fun held : TrustContext => held.ns ≠ ctx.ns) ++ [ctx]
  { state with contexts }.spawn [.closeRevoked ctx]

def removeDropped (dropped : Dropped) : List LinkOp :=
  dropped.routes.flatMap fun r => r.2.map (.removeRoute r.1)

/-- A step of a task, and what it leaves the task to do. -/
def perform (state : Links) : LinkOp → Links × List LinkOp
  | .register link mine =>
    let registered := state.table.register link mine
    ({ state with table := registered.1, closes := state.closes ++ registered.2.1 },
      match registered.2.2 with
      | none => []
      | some generation =>
        link.path.routes.map (fun r => .addRoute link.path.face r.name) ++
          [.untilEnded link.fingerprint generation link.path.face])
  | .addRoute face name => ({ state with routed := insert (face, name) state.routed }, [])
  | .untilEnded fingerprint generation face =>
    ({ state with table := (state.table.unregister fingerprint generation).1 }, [.removeFace face])
  | .removeFace face => ({ state with routed := state.routed.filter fun r => r.1 ≠ face }, [])
  | .closeRevoked ctx =>
    let closed := state.table.closeRevoked ctx
    ({ state with table := closed.1, closes := state.closes ++ closed.2.1 },
      closed.2.2.flatMap removeDropped)
  | .removeRoute face name => ({ state with routed := state.routed.erase (face, name) }, [])

def run (state : Links) (task : Nat) : Links :=
  match state.tasks[task]? with
  | some (op :: rest) =>
    let performed := state.perform op
    { performed.1 with tasks := state.tasks.set task (performed.2 ++ rest) }
  | _ => state

def step (state : Links) : LinksAction → Links
  | .establish link mine => state.establish link mine
  | .adopt ctx => state.adopt ctx
  | .run task => state.run task

end Links

def LinkOp.waits : LinkOp → Bool
  | .untilEnded _ _ _ => true
  | _ => false

/-- A link without what a trust context revokes. -/
def LiveLink.left (ctx : TrustContext) (link : LiveLink) : LiveLink :=
  let revoked := link.identities.filter (isRevoked ctx)
  let identities := link.identities.filter fun id => !isRevoked ctx id
  let kept (p : LivePath) : LivePath :=
    let routes := p.path.routes.filter fun r => !revoked.any fun id => losesRoutes id r
    { p with path := { p.path with routes } }
  { link with identities, paths := if identities.isEmpty then link.paths else link.paths.map kept }

namespace Links

/-- Nothing is left to do but to wait for the ends of paths. -/
def Settled (state : Links) : Prop := ∀ task ∈ state.tasks, ∀ op ∈ task, op.waits = true

instance (state : Links) : Decidable state.Settled :=
  inferInstanceAs (Decidable (∀ task ∈ state.tasks, ∀ op ∈ task, op.waits = true))

def Open (state : Links) (p : LivePath) : Prop :=
  ∀ close ∈ state.closes, close.handle ≠ p.path.handle

/-- No link that is open is of an identity that the newest context of its namespace revokes, and the
forwarder's routes to its faces are its own. -/
structure Safe (state : Links) : Prop where
  unrevoked : ∀ key link, state.table.live.lookup key = some link →
    (∃ p ∈ link.paths, state.Open p) → ∀ id ∈ link.identities, ∀ ctx ∈ state.contexts,
      ctx.ns = id.ns → id.certificates.any ctx.isRevoked = false
  routes : ∀ key link, state.table.live.lookup key = some link → ∀ p ∈ link.paths, state.Open p →
    ∀ name, (p.path.face, name) ∈ state.routed ↔ ∃ r ∈ p.path.routes, r.name = name

/-- An adoption takes from each link the identities it revokes and their routes, and closes a link
left with no identity. -/
def TakesRevoked (state : Links) : LinksAction → Prop
  | .run task => ∀ ctx, (state.tasks[task]?).bind List.head? = some (.closeRevoked ctx) →
    ∀ key link, state.table.live.lookup key = some link →
      (state.run task).table.live.lookup key = some (link.left ctx) ∧
        (link.identities ≠ [] → (link.left ctx).identities = [] →
          ∀ p ∈ link.paths, ¬(state.run task).Open p)
  | _ => True

def Pending (state : Links) (op : LinkOp) : Prop := ∃ task ∈ state.tasks, op ∈ task

/-- A path is registered and its routes added as no context has come in between, or before the
context that has takes what it revokes; and a context revokes one identity of a link at most. -/
def Orderly (state : Links) : LinksAction → Prop
  | .run task => match (state.tasks[task]?).bind List.head? with
    | some (.register link _) => ∀ id ∈ link.identities, ∀ ctx ∈ state.contexts, ctx.ns = id.ns →
      id.certificates.any ctx.isRevoked = true → state.Pending (.closeRevoked ctx)
    | some (.closeRevoked ctx) => ∀ key link, state.table.live.lookup key = some link →
      (link.identities.filter (LiveLink.isRevoked ctx)).length ≤ 1
    | some (.addRoute face name) => ∀ key, ∀ p ∈ state.table.paths key, p.path.face = face →
      (∃ r ∈ p.path.routes, r.name = name) ∨ state.Pending (.removeRoute face name)
    | _ => True
  | _ => True

end Links

/-! ### What deciding establishes -/

theorem judged_iff {contexts : List TrustContext} {id : Identity} : judged contexts id = true ↔
    Covers id.ns id.device ∧ ∀ ctx ∈ contexts, ctx.ns = id.ns →
      ∀ certificate ∈ id.certificates, ctx.isRevoked certificate = false := by
  unfold judged
  rw [Bool.and_eq_true, decide_eq_true_eq, List.all_eq_true]
  apply and_congr_right
  intro _
  apply forall₂_congr
  intro ctx _
  simp [imp_iff_not_or]

theorem identifyForeign_device {judge : Judge} {leafWire : Bytes} {leaf : Certificate}
    {chain : List Certificate} {id : Identity}
    (identified : judge.identifyForeign leafWire leaf chain = .device id) :
    id.ns ≠ .root ∧ ∃ device, judge.security.parseDeviceKey id.ns leaf.name = some device ∧
      id.device = device.nameIn id.ns := by
  unfold Judge.identifyForeign unusable at identified
  split at identified
  · cases identified
  · split at identified
    · cases identified
    · next ns named =>
      have nonempty := of_decide_eq_true (Option.filter_eq_some_iff.mp named).2
      split at identified
      · cases identified
      · next device parsed =>
        repeat' split at identified
        all_goals first
          | (cases identified; exact ⟨nonempty, device, parsed, rfl⟩)
          | cases identified

/-- No context held revokes a certificate of an identity that a hello establishes. -/
theorem judged_of_identified {judge : Judge} (lawful : judge.keyring.Lawful)
    (reads : judge.security.ReadsDevices) {key : PeerKey} {hello : LinkHello} {channel : Bytes}
    {proven : Proven} (identified : judge.identify key hello channel = .ok proven) :
    ∀ id ∈ proven.identities, judged judge.keyring.contexts id = true := by
  refine Judge.identify_forall ?_ identified
  intro leafWire leaf issuers id chain
  rw [judged_iff]
  unfold Judge.identifyChain unusable at chain
  split at chain
  · cases chain
  · next certificates decoded =>
    dsimp only at chain
    split at chain
    · next empty =>
      rw [Except.ok.injEq] at chain
      obtain ⟨nonempty, device, parsed, named⟩ := identifyForeign_device chain
      rw [named]
      refine ⟨Covers.nameIn device id.ns, ?_⟩
      intro ctx held same
      -- A context of this namespace would cover the leaf.
      have covers := (Covers.nameIn device id.ns).trans (reads _ _ _ parsed)
      have short := lawful.longest leaf.name ctx held (by rw [same]; exact covers)
      rw [empty, same] at short
      have none' : id.ns.components = [] := List.length_eq_zero_iff.mp (Nat.le_zero.mp short)
      exact absurd (Name.components_injective none') nonempty
    · next nonempty =>
      split at chain
      · cases chain
      · next unrevoked =>
        split at chain
        · cases chain
        · next device parsed =>
          split at chain
          · cases chain
          · split at chain
            · cases chain
            · next none' =>
              split at chain
              · cases chain
                refine ⟨Covers.nameIn device _, ?_⟩
                intro ctx held same certificate among
                have is := lawful.one ctx held _ (lawful.held leaf.name nonempty).1 same
                subst is
                rcases List.mem_cons.mp among with rfl | issuer
                · exact Bool.eq_false_of_not_eq_true unrevoked
                · obtain ⟨c, member, rfl⟩ := List.mem_map.mp issuer
                  exact Bool.eq_false_of_not_eq_true (List.find?_eq_none.mp none' c member)
              · split at chain <;> cases chain

theorem alpha_judged : judged Example.relay.keyring.contexts Example.alpha = true :=
  @judged_of_identified Example.relay Example.keyring_lawful Example.security_reads_devices
    Example.alphaKey Example.alphaHello [] ⟨[Example.alpha], .noCertificate⟩
    (by with_unfolding_all rfl) Example.alpha (List.mem_singleton_self _)

/-! ### What the steps do to the table -/

theorem eraseP_eq_filter {A : Type} {test : A → Bool} {items : List A}
    (few : (items.filter test).length ≤ 1) :
    items.eraseP test = items.filter fun item => !test item := by
  induction items with
  | nil => rfl
  | cons item rest ih =>
    cases passes : test item with
    | true =>
      rw [List.filter_cons_of_pos passes, List.length_cons] at few
      have others : rest.filter test = [] := List.length_eq_zero_iff.mp (by omega)
      rw [List.eraseP_cons_of_pos passes, List.filter_cons_of_neg (by simp [passes])]
      refine (List.filter_eq_self.mpr ?_).symm
      intro other among
      simpa using List.filter_eq_nil_iff.mp others other among
    | false =>
      rw [List.filter_cons_of_neg (by simp [passes])] at few
      rw [List.eraseP_cons_of_neg (by simp [passes]),
        List.filter_cons_of_pos (by simp [passes]), ih few]

theorem filter_of_find? {A : Type} {test : A → Bool} {items : List A} {item : A}
    (few : (items.filter test).length ≤ 1) (found : items.find? test = some item) :
    items.filter test = [item] := by
  rw [← List.head?_filter] at found
  obtain ⟨rest, whole⟩ := List.head?_eq_some_iff.mp found
  rw [whole, List.length_cons] at few
  rw [whole, List.length_eq_zero_iff.mp (by omega : rest.length = 0)]

variable {face : FaceId} {name : Name} {fingerprint : KeyFingerprint} {generation : Nat}

namespace LiveLink

variable {ctx : TrustContext} {link : LiveLink}

/-- The code takes the first revoked identity only. -/
theorem revoke_eq_left (few : (link.identities.filter (isRevoked ctx)).length ≤ 1) :
    (link.revoke ctx).1 = link.left ctx := by
  unfold revoke left
  cases found : link.identities.find? (isRevoked ctx) with
  | none =>
    have unrevoked : ∀ id ∈ link.identities, isRevoked ctx id = false := by
      simpa using found
    have nothing : link.identities.filter (isRevoked ctx) = [] := by
      simpa using found
    have all : (link.identities.filter fun id => !isRevoked ctx id) = link.identities := by
      simpa using unrevoked
    simp [nothing, all]
  | some id =>
    have one := filter_of_find? few found
    rw [eraseP_eq_filter few, one]
    dsimp only
    split
    · next emptied => simp_all
    · next others => simp_all [without]

theorem revoke_generations : (link.revoke ctx).1.paths.map LivePath.generation =
    link.paths.map LivePath.generation := by
  unfold revoke
  split
  · rfl
  · dsimp only
    split
    · rfl
    · rw [List.map_map]
      rfl

/-- A path of the link a revocation leaves was one before, less the routes it reports. -/
theorem revoke_path {q : LivePath} (among : q ∈ (link.revoke ctx).1.paths) :
    ∃ p ∈ link.paths, q.generation = p.generation ∧ q.path.face = p.path.face ∧
      q.path.handle = p.path.handle ∧ (∀ r ∈ q.path.routes, r ∈ p.path.routes) ∧
        ∀ r ∈ p.path.routes, r ∈ q.path.routes ∨
          ∃ dropped ∈ (link.revoke ctx).2.2, ∃ gone, (p.path.face, gone) ∈ dropped.routes ∧
            r.name ∈ gone := by
  unfold revoke at among ⊢
  cases found : link.identities.find? (isRevoked ctx) with
  | none =>
    rw [found] at among
    exact ⟨q, among, rfl, rfl, rfl, fun _ member => member, fun _ member => Or.inl member⟩
  | some id =>
    rw [found] at among
    dsimp only at among ⊢
    split at among
    · exact ⟨q, among, rfl, rfl, rfl, fun _ member => member, fun _ member => Or.inl member⟩
    · next others =>
      rw [if_neg others]
      obtain ⟨p, before, rfl⟩ := List.mem_map.mp among
      refine ⟨p, before, rfl, rfl, rfl, fun r member => (List.mem_filter.mp member).1, ?_⟩
      intro r member
      cases loses : losesRoutes id r with
      | false =>
        left
        exact List.mem_filter.mpr ⟨member, by rw [loses]; rfl⟩
      | true =>
        right
        have named : r.name ∈ (p.path.routes.filter (losesRoutes id)).map Route.name :=
          List.mem_map_of_mem (List.mem_filter.mpr ⟨member, loses⟩)
        refine ⟨_, rfl, _, List.mem_filterMap.mpr ⟨p, before, ?_⟩, named⟩
        exact if_neg fun none => List.ne_nil_of_mem named (List.isEmpty_iff.mp none)

/-- A route that a revocation reports is of a path that has lost it. -/
theorem revoke_dropped {dropped : Dropped} (drops : dropped ∈ (link.revoke ctx).2.2)
    {gone : List Name} (among : (face, gone) ∈ dropped.routes) (lost' : name ∈ gone) :
    ∃ p ∈ link.paths, p.path.face = face ∧ ∀ q ∈ (link.revoke ctx).1.paths,
      (∀ p' ∈ link.paths, p'.path.face = face → p' = p) → q.path.face = face →
        ∀ r ∈ q.path.routes, r.name ≠ name := by
  unfold revoke at drops ⊢
  cases found : link.identities.find? (isRevoked ctx) with
  | none =>
    rw [found] at drops
    cases drops
  | some id =>
    rw [found] at drops
    dsimp only at drops ⊢
    split at drops
    · cases drops
    · next others =>
      cases drops
      rw [if_neg others]
      obtain ⟨p, before, is⟩ := List.mem_filterMap.mp among
      unfold lost at is
      dsimp only at is
      split at is
      · cases is
      · cases is
        refine ⟨p, before, rfl, ?_⟩
        intro q member alone same r kept named
        obtain ⟨p', before', rfl⟩ := List.mem_map.mp member
        rw [alone p' before' same] at kept
        obtain ⟨r', lost', name'⟩ := List.mem_map.mp lost'
        have stays := (List.mem_filter.mp kept).2
        have goes := (List.mem_filter.mp lost').2
        unfold losesRoutes at stays goes
        rw [named, ← name', goes] at stays
        cases stays

/-- A link left with no identity is closed. -/
theorem revoke_closes (few : (link.identities.filter (isRevoked ctx)).length ≤ 1)
    (some' : link.identities ≠ []) (none' : (link.left ctx).identities = []) {p : LivePath}
    (among : p ∈ link.paths) : ∃ close ∈ (link.revoke ctx).2.1, close.handle = p.path.handle := by
  rw [← revoke_eq_left few] at none'
  unfold revoke at none' ⊢
  cases found : link.identities.find? (isRevoked ctx) with
  | none =>
    rw [found] at none'
    exact absurd none' some'
  | some id =>
    rw [found] at none'
    dsimp only at none' ⊢
    split at none'
    · next emptied =>
      rw [if_pos emptied]
      exact ⟨_, List.mem_map_of_mem among, rfl⟩
    · next others => exact absurd (List.isEmpty_iff.mpr none') others

end LiveLink

namespace LinkTable

variable {table : LinkTable}

theorem mem_paths {key : KeyFingerprint} {p : LivePath} : p ∈ table.paths key ↔
    ∃ link, table.live.lookup key = some link ∧ p ∈ link.paths := by
  unfold paths
  cases table.live.lookup key with
  | none => simp
  | some link => simp

theorem register_links (table : LinkTable) (link : Registration) (mine : Option KeyFingerprint) :
    (table.register link mine).1.live = table.live ∧ (table.register link mine).2.2 = none ∨
      (table.register link mine).2.2 = some (table.generation + 1) ∧
        (∀ key, (table.register link mine).1.paths key =
          if key = link.fingerprint then
            (table.paths link.fingerprint).filter (fun p => p.path.kind ≠ link.path.kind) ++
              [⟨link.path, table.generation + 1⟩]
          else table.paths key) ∧
        ∀ key, (table.register link mine).1.live.lookup key =
          if key = link.fingerprint then
            some (registered (table.live.lookup link.fingerprint) link (table.generation + 1))
          else table.live.lookup key := by
  rcases register_lookup table link mine with ⟨_, same, none⟩ | ⟨_, generation, made, looked⟩
  · exact Or.inl ⟨same, none⟩
  · rcases register_cases table link mine with ⟨_, _, _, none⟩ | ⟨_, paths, _, next⟩
    · rw [made] at none
      cases none
    · cases made.symm.trans next
      exact Or.inr ⟨next, paths, looked⟩

/-- Where the generations of a link's paths are distinct, a path that ended is in it no more. -/
theorem mem_unregister
    (distinct : ((table.paths fingerprint).map LivePath.generation).Nodup) {key : KeyFingerprint}
    {p : LivePath} (among : p ∈ (table.unregister fingerprint generation).1.paths key) :
    p ∈ table.paths key ∧ ¬(key = fingerprint ∧ p.generation = generation) := by
  rw [unregister_paths] at among
  split at among
  · next same =>
    subst same
    refine ⟨List.mem_of_mem_eraseP among, ?_⟩
    rintro ⟨_, ended⟩
    cases found : (table.paths key).find? (fun p => p.generation = generation) with
    | none =>
      have absent := List.find?_eq_none.mp found p (List.mem_of_mem_eraseP among)
      exact absent (decide_eq_true ended)
    | some first =>
      obtain ⟨earlier, later, split, rest⟩ := eraseP_of_find? found
      have is : first.generation = generation := by simpa using List.find?_some found
      rw [rest] at among
      rw [split, List.map_append, List.map_cons, List.nodup_middle, List.nodup_cons,
        ← List.map_append] at distinct
      exact distinct.1 (List.mem_map.mpr ⟨p, among, ended.trans is.symm⟩)
  · next other => exact ⟨among, fun both => other both.1⟩

theorem unregister_identities {key : KeyFingerprint}
    {link : LiveLink}
    (held : (table.unregister fingerprint generation).1.live.lookup key = some link) :
    ∃ before, table.live.lookup key = some before ∧ link.identities = before.identities := by
  rcases unregister_lookup table fingerprint generation with
    ⟨_, same⟩ | ⟨before, _, _, was, _, _, _, _, looked⟩
  · rw [same] at held
    exact ⟨link, held, rfl⟩
  · rw [looked] at held
    split at held
    · next here =>
      subst here
      unfold remaining at held
      dsimp only at held
      split at held
      · cases held
      · cases held
        exact ⟨before, was, rfl⟩
    · exact ⟨link, held, rfl⟩

end LinkTable
namespace Links

variable {state after : Links} {i : Nat} {op : LinkOp} {rest more : List LinkOp}

/-! ### The tasks -/

variable {x : LinkOp}

section

variable (here : state.tasks[i]? = some (op :: rest))
  (tasks : after.tasks = state.tasks.set i (more ++ rest))
include here tasks

theorem pending_of_run
    (pending : after.Pending x) : x ∈ more ∨ state.Pending x := by
  obtain ⟨task, member, among⟩ := pending
  rw [tasks] at member
  rcases List.mem_or_eq_of_mem_set member with before | rfl
  · exact Or.inr ⟨task, before, among⟩
  · rcases List.mem_append.mp among with new | old
    · exact Or.inl new
    · exact Or.inr ⟨_, List.mem_of_getElem? here, List.mem_cons_of_mem _ old⟩

theorem run_here : (more ++ rest) ∈ after.tasks := by
  rw [tasks]
  exact List.mem_set (List.getElem?_eq_some_iff.mp here).1 _

theorem pending_more (new : x ∈ more) :
    after.Pending x := ⟨_, run_here here tasks, List.mem_append_left _ new⟩

/-- What was pending is, but for the operation that is done. -/
theorem pending_run (other : x ≠ op)
    (pending : state.Pending x) : after.Pending x := by
  obtain ⟨task, member, among⟩ := pending
  obtain ⟨j, at'⟩ := List.mem_iff_getElem?.mp member
  by_cases same : j = i
  · subst same
    cases here.symm.trans at'
    rcases List.mem_cons.mp among with rfl | later
    · exact absurd rfl other
    · exact ⟨_, run_here here tasks, List.mem_append_right _ later⟩
  · refine ⟨task, ?_, among⟩
    rw [tasks]
    refine List.mem_iff_getElem?.mpr ⟨j, ?_⟩
    rw [List.getElem?_set_ne (Ne.symm same)]
    exact at'

end

/-! ### One step -/

/-- No path has the face, and the forwarder has no route to it nor is to lose one. -/
structure Untouched (state : Links) (face : FaceId) : Prop where
  path : ∀ key, ∀ p ∈ state.table.paths key, p.path.face ≠ face
  routed : ∀ name, (face, name) ∉ state.routed
  removed : ∀ name, ¬state.Pending (.removeRoute face name)

/-- What holds of an operation that a task has to do. -/
def OpSound (state : Links) (number : Nat) (task : List LinkOp) : LinkOp → Prop
  | .register link mine => link.path.face = ⟨number⟩ ∧ task = [.register link mine] ∧
    state.Untouched ⟨number⟩ ∧ ∀ id ∈ link.identities, Covers id.ns id.device
  | .addRoute face _ => face = ⟨number⟩
  | .untilEnded fingerprint generation face => face = ⟨number⟩ ∧
    ∀ key, ∀ p ∈ state.table.paths key, p.path.face = ⟨number⟩ →
      key = fingerprint ∧ p.generation = generation
  | .removeFace face => face = ⟨number⟩ ∧
    ∀ key, ∀ p ∈ state.table.paths key, p.path.face ≠ ⟨number⟩
  | _ => True

structure Sound (state : Links) : Prop where
  numbered : ∀ key, ∀ p ∈ state.table.paths key, p.generation ≤ state.table.generation
  distinct : ∀ key, ((state.table.paths key).map LivePath.generation).Nodup
  own : ∀ key key', ∀ p ∈ state.table.paths key, ∀ q ∈ state.table.paths key',
    p.path.face = q.path.face → key = key' ∧ p = q
  ops : ∀ number task, state.tasks[number]? = some task → ∀ x ∈ task, state.OpSound number task x
  fresh : ∀ number, state.tasks.length ≤ number → state.Untouched ⟨number⟩
  listed : ∀ key, ∀ p ∈ state.table.paths key, ∀ r ∈ p.path.routes,
    (p.path.face, r.name) ∈ state.routed ∨ state.Pending (.addRoute p.path.face r.name)
  routed : ∀ key, ∀ p ∈ state.table.paths key, ∀ name, (p.path.face, name) ∈ state.routed →
    (∃ r ∈ p.path.routes, r.name = name) ∨ state.Pending (.removeRoute p.path.face name)
  gone : ∀ key, ∀ p ∈ state.table.paths key, ∀ name,
    state.Pending (.removeRoute p.path.face name) → ∀ r ∈ p.path.routes, r.name ≠ name
  covers : ∀ key link, state.table.live.lookup key = some link → ∀ id ∈ link.identities,
    Covers id.ns id.device
  unrevoked : ∀ key link, state.table.live.lookup key = some link → ∀ id ∈ link.identities,
    ∀ ctx ∈ state.contexts, ctx.ns = id.ns → id.certificates.any ctx.isRevoked = true →
      state.Pending (.closeRevoked ctx)

theorem OpSound.mono {number : Nat} {task : List LinkOp}
    (sound : state.OpSound number task x)
    (paths : ∀ key, ∀ q ∈ after.table.paths key, q.path.face = ⟨number⟩ →
      ∃ p ∈ state.table.paths key, p.path.face = ⟨number⟩ ∧ p.generation = q.generation)
    (untouched : state.Untouched ⟨number⟩ → after.Untouched ⟨number⟩) :
    after.OpSound number task x := by
  cases x with
  | register link mine => exact ⟨sound.1, sound.2.1, untouched sound.2.2.1, sound.2.2.2⟩
  | addRoute face name => exact sound
  | untilEnded fingerprint generation face =>
    refine ⟨sound.1, ?_⟩
    intro key q among same
    obtain ⟨p, before, face', generation'⟩ := paths key q among same
    rw [← generation']
    exact sound.2 key p before face'
  | removeFace face =>
    refine ⟨sound.1, ?_⟩
    intro key q among same
    obtain ⟨p, before, face', _⟩ := paths key q among same
    exact sound.2 key p before face'
  | closeRevoked ctx => trivial
  | removeRoute face name => trivial

/-- A step leaves the other tasks sound, and its own by what it leaves to do. -/
theorem Sound.others (sound : state.Sound) (here : state.tasks[i]? = some (op :: rest))
    (tasks : after.tasks = state.tasks.set i (more ++ rest))
    (paths : ∀ number, number ≠ i → ∀ key, ∀ q ∈ after.table.paths key,
      q.path.face = ⟨number⟩ →
        ∃ p ∈ state.table.paths key, p.path.face = ⟨number⟩ ∧ p.generation = q.generation)
    (untouched : ∀ number, number ≠ i → state.Untouched ⟨number⟩ → after.Untouched ⟨number⟩)
    (own : ∀ x ∈ more ++ rest, after.OpSound i (more ++ rest) x) :
    (∀ number task, after.tasks[number]? = some task → ∀ x ∈ task,
      after.OpSound number task x) ∧
      ∀ number, after.tasks.length ≤ number → after.Untouched ⟨number⟩ := by
  have inside := (List.getElem?_eq_some_iff.mp here).1
  constructor
  · intro number task found x among
    rw [tasks] at found
    by_cases same : number = i
    · subst same
      rw [List.getElem?_set_self inside] at found
      cases found
      exact own x among
    · rw [List.getElem?_set_ne (Ne.symm same)] at found
      exact (sound.ops number task found x among).mono (paths number same) (untouched number same)
  · intro number beyond
    rw [tasks, List.length_set] at beyond
    have other : number ≠ i := by omega
    exact untouched number other (sound.fresh number beyond)

/-- What is left of a task that has not been to register a path. -/
theorem Sound.remainder (sound : state.Sound) (here : state.tasks[i]? = some (op :: rest))
    (paths : ∀ key, ∀ q ∈ after.table.paths key, q.path.face = ⟨i⟩ →
      ∃ p ∈ state.table.paths key, p.path.face = ⟨i⟩ ∧ p.generation = q.generation) :
    ∀ x ∈ rest, after.OpSound i (more ++ rest) x := by
  intro x among
  have was := sound.ops i _ here x (List.mem_cons_of_mem _ among)
  cases x with
  | register link mine =>
    obtain ⟨_, single, _⟩ := was
    cases single
    cases among
  | addRoute face name => exact was
  | untilEnded fingerprint generation face =>
    refine ⟨was.1, ?_⟩
    intro key q member same
    obtain ⟨p, before, face', generation'⟩ := paths key q member same
    rw [← generation']
    exact was.2 key p before face'
  | removeFace face =>
    refine ⟨was.1, ?_⟩
    intro key q member same
    obtain ⟨p, before, face', _⟩ := paths key q member same
    exact was.2 key p before face'
  | closeRevoked ctx => trivial
  | removeRoute face name => trivial

theorem run_eq (here : state.tasks[i]? = some (op :: rest)) : state.run i =
    { (state.perform op).1 with tasks := state.tasks.set i ((state.perform op).2 ++ rest) } := by
  unfold run
  rw [here]

section

variable (sound : state.Sound)
include sound

/-- A step that changes no link. -/
theorem Sound.forwarding (here : state.tasks[i]? = some (op :: rest))
    (live : after.table.live = state.table.live)
    (generation : state.table.generation ≤ after.table.generation)
    (contexts : after.contexts = state.contexts)
    (tasks : after.tasks = state.tasks.set i ([] ++ rest))
    (op' : ∀ ctx, .closeRevoked ctx ≠ op)
    (untouched : ∀ number, number ≠ i → state.Untouched ⟨number⟩ →
      ∀ name, (⟨number⟩, name) ∉ after.routed)
    (listed : ∀ key, ∀ p ∈ state.table.paths key, ∀ r ∈ p.path.routes,
      (p.path.face, r.name) ∈ after.routed ∨ after.Pending (.addRoute p.path.face r.name))
    (routed : ∀ key, ∀ p ∈ state.table.paths key, ∀ name, (p.path.face, name) ∈ after.routed →
      (∃ r ∈ p.path.routes, r.name = name) ∨ after.Pending (.removeRoute p.path.face name)) :
    after.Sound := by
  have table : after.table.paths = state.table.paths := by
    unfold LinkTable.paths
    rw [live]
  have pending : ∀ x, after.Pending x → state.Pending x := by
    intro x found
    exact (pending_of_run here tasks found).resolve_left (List.not_mem_nil)
  have paths : ∀ number key, ∀ q ∈ after.table.paths key, q.path.face = ⟨number⟩ →
      ∃ p ∈ state.table.paths key, p.path.face = ⟨number⟩ ∧ p.generation = q.generation := by
    rw [table]
    exact fun number key q among same => ⟨q, among, same, rfl⟩
  have others := sound.others here tasks (fun number _ => paths number)
    (fun number other before => ⟨by rw [table]; exact before.path, untouched number other before,
      fun name found => before.removed name (pending _ found)⟩)
    (sound.remainder here (paths i))
  refine ⟨?_, ?_, ?_, others.1, others.2, ?_, ?_, ?_, ?_, ?_⟩
  · rw [table]
    exact fun key p among => (sound.numbered key p among).trans generation
  · rw [table]
    exact sound.distinct
  · rw [table]
    exact sound.own
  · rw [table]
    exact listed
  · rw [table]
    exact routed
  · rw [table]
    exact fun key p among name found => sound.gone key p among name (pending _ found)
  · rw [live]
    exact sound.covers
  · rw [live, contexts]
    intro key link held id shown ctx newest same revoked
    exact pending_run here tasks (op' ctx)
      (sound.unrevoked key link held id shown ctx newest same revoked)

theorem addRoute_sound
    (here : state.tasks[i]? = some (.addRoute face name :: rest))
    (orderly : ∀ key, ∀ p ∈ state.table.paths key, p.path.face = face →
      (∃ r ∈ p.path.routes, r.name = name) ∨ state.Pending (.removeRoute face name)) :
    (state.run i).Sound := by
  rw [run_eq here]
  have own : face = ⟨i⟩ := sound.ops i _ here _ List.mem_cons_self
  have tasks : ∀ x, x ≠ .addRoute face name → state.Pending x →
      Links.Pending { (state.perform (.addRoute face name)).1 with
        tasks := state.tasks.set i ((state.perform (.addRoute face name)).2 ++ rest) } x :=
    fun x other => pending_run here rfl other
  refine sound.forwarding here rfl le_rfl rfl rfl (by intro ctx impossible; cases impossible)
    ?_ ?_ ?_
  · intro number other before other' found
    rcases Finset.mem_insert.mp found with same | was
    · cases own.symm.trans (congrArg Prod.fst same).symm
      exact other rfl
    · exact before.routed other' was
  · intro key p among r route
    by_cases same : LinkOp.addRoute p.path.face r.name = .addRoute face name
    · cases same
      exact Or.inl (Finset.mem_insert_self _ _)
    · exact (sound.listed key p among r route).imp (fun was => Finset.mem_insert_of_mem was)
        (tasks _ same)
  · intro key p among other found
    have reason : (∃ r ∈ p.path.routes, r.name = other) ∨
        state.Pending (.removeRoute p.path.face other) := by
      rcases Finset.mem_insert.mp found with same | was
      · cases same
        exact orderly key p among rfl
      · exact sound.routed key p among other was
    exact reason.imp_right (tasks _ (by intro impossible; cases impossible))

theorem removeFace_sound
    (here : state.tasks[i]? = some (.removeFace face :: rest)) : (state.run i).Sound := by
  rw [run_eq here]
  obtain ⟨own, gone⟩ := sound.ops i _ here _ List.mem_cons_self
  subst own
  refine sound.forwarding here rfl le_rfl rfl rfl (by intro ctx impossible; cases impossible)
    ?_ ?_ ?_
  · intro number _ before name found
    exact before.routed name (Finset.mem_filter.mp found).1
  · intro key p among r route
    refine (sound.listed key p among r route).imp ?_ ?_
    · intro was
      exact Finset.mem_filter.mpr ⟨was, gone key p among⟩
    · exact pending_run here rfl (by intro impossible; cases impossible)
  · intro key p among name found
    refine (sound.routed key p among name (Finset.mem_filter.mp found).1).imp_right ?_
    exact pending_run here rfl (by intro impossible; cases impossible)

theorem removeRoute_sound
    (here : state.tasks[i]? = some (.removeRoute face name :: rest)) : (state.run i).Sound := by
  rw [run_eq here]
  have pending : state.Pending (.removeRoute face name) :=
    ⟨_, List.mem_of_getElem? here, List.mem_cons_self⟩
  refine sound.forwarding here rfl le_rfl rfl rfl (by intro ctx impossible; cases impossible)
    ?_ ?_ ?_
  · intro number _ before other found
    exact before.routed other (Finset.mem_erase.mp found).2
  · intro key p among r route
    refine (sound.listed key p among r route).imp ?_ ?_
    · intro was
      refine Finset.mem_erase.mpr ⟨?_, was⟩
      intro same
      cases same
      exact sound.gone key p among _ pending r route rfl
    · exact pending_run here rfl (by intro impossible; cases impossible)
  · intro key p among other found
    obtain ⟨different, was⟩ := Finset.mem_erase.mp found
    refine (sound.routed key p among other was).imp_right ?_
    refine pending_run here rfl ?_
    intro same
    cases same
    exact different rfl

/-- The end of a path takes it from the table. -/
theorem untilEnded_sound
    (here : state.tasks[i]? = some (.untilEnded fingerprint generation face :: rest)) :
    (state.run i).Sound := by
  rw [run_eq here]
  obtain ⟨own, ends⟩ := sound.ops i _ here _ List.mem_cons_self
  subst own
  let after := (state.table.unregister fingerprint generation).1
  have before : ∀ key, ∀ q ∈ after.paths key, q ∈ state.table.paths key :=
    fun key q among => (LinkTable.mem_unregister (sound.distinct fingerprint) among).1
  have gone : ∀ key, ∀ q ∈ after.paths key, q.path.face ≠ ⟨i⟩ := by
    intro key q among same
    obtain ⟨was, still⟩ := LinkTable.mem_unregister (sound.distinct fingerprint) among
    exact still (ends key q was same)
  have paths : ∀ number key, ∀ q ∈ after.paths key, q.path.face = ⟨number⟩ →
      ∃ p ∈ state.table.paths key, p.path.face = ⟨number⟩ ∧ p.generation = q.generation :=
    fun number key q among same => ⟨q, before key q among, same, rfl⟩
  have pending : ∀ x, Links.Pending
      { (state.perform (.untilEnded fingerprint generation ⟨i⟩)).1 with
        tasks := state.tasks.set i ([.removeFace ⟨i⟩] ++ rest) } x →
      x = .removeFace ⟨i⟩ ∨ state.Pending x := by
    intro x found
    exact (pending_of_run here rfl found).imp_left List.mem_singleton.mp
  have removing : ∀ face' name, Links.Pending
      { (state.perform (.untilEnded fingerprint generation ⟨i⟩)).1 with
        tasks := state.tasks.set i ([.removeFace ⟨i⟩] ++ rest) } (.removeRoute face' name) →
      state.Pending (.removeRoute face' name) := by
    intro face' name found
    exact (pending _ found).resolve_left (by intro impossible; cases impossible)
  have others := @Sound.others state
    { (state.perform (.untilEnded fingerprint generation ⟨i⟩)).1 with
      tasks := state.tasks.set i ([.removeFace ⟨i⟩] ++ rest) } i _ rest [.removeFace ⟨i⟩] sound here
    rfl (fun number _ => paths number)
    (fun number other was => ⟨fun key q among => was.path key q (before key q among), was.routed,
      fun name found => was.removed name (removing _ name found)⟩) (by
      intro x among
      rcases List.mem_append.mp among with new | old
      · rw [List.mem_singleton.mp new]
        exact ⟨rfl, gone⟩
      · exact sound.remainder here (paths i) x old)
  refine ⟨?_, ?_, ?_, others.1, others.2, ?_, ?_, ?_, ?_, ?_⟩
  · intro key q among
    refine (sound.numbered key q (before key q among)).trans_eq ?_
    exact (LinkTable.unregister_generation _ _).symm
  · intro key
    have sublist : (after.paths key).Sublist (state.table.paths key) := by
      change ((state.table.unregister fingerprint generation).1.paths key).Sublist _
      rw [LinkTable.unregister_paths]
      split
      · next same =>
        rw [same]
        exact List.eraseP_sublist
      · exact List.Sublist.refl _
    exact (sublist.map _).nodup (sound.distinct key)
  · intro key key' p among q among'
    exact sound.own key key' p (before key p among) q (before key' q among')
  · intro key p among r route
    refine (sound.listed key p (before key p among) r route).imp_right ?_
    exact pending_run here rfl (by intro impossible; cases impossible)
  · intro key p among name found
    refine (sound.routed key p (before key p among) name found).imp_right ?_
    exact pending_run here rfl (by intro impossible; cases impossible)
  · intro key p among name found
    exact sound.gone key p (before key p among) name (removing _ name found)
  · intro key link held id shown
    obtain ⟨old, was, same⟩ := LinkTable.unregister_identities held
    rw [same] at shown
    exact sound.covers key old was id shown
  · intro key link held id shown ctx newest ns revoked
    obtain ⟨old, was, same⟩ := LinkTable.unregister_identities held
    rw [same] at shown
    refine pending_run here rfl (by intro impossible; cases impossible) ?_
    exact sound.unrevoked key old was id shown ctx newest ns revoked

/-- A path is recorded, unless the one in place stays. -/
theorem register_sound {link : Registration} {mine : Option KeyFingerprint}
    (here : state.tasks[i]? = some (.register link mine :: rest))
    (orderly : ∀ id ∈ link.identities, ∀ ctx ∈ state.contexts, ctx.ns = id.ns →
      id.certificates.any ctx.isRevoked = true → state.Pending (.closeRevoked ctx)) :
    (state.run i).Sound := by
  obtain ⟨own, single, untouched, covers⟩ := sound.ops i _ here _ List.mem_cons_self
  obtain rfl : rest = [] := by
    cases single
    rfl
  rw [run_eq here]
  dsimp only [perform]
  rcases LinkTable.register_links state.table link mine with
    ⟨same, none'⟩ | ⟨made, paths, looked⟩
  · rw [none']
    refine sound.forwarding here same ?_ rfl rfl (by intro ctx impossible; cases impossible)
      ?_ ?_ ?_
    · exact (Nat.le_succ _).trans_eq LinkTable.register_generation.symm
    · exact fun number _ before => before.routed
    · intro key p among r route
      refine (sound.listed key p among r route).imp_right ?_
      exact pending_run here rfl (by intro impossible; cases impossible)
    · intro key p among name found
      refine (sound.routed key p among name found).imp_right ?_
      exact pending_run here rfl (by intro impossible; cases impossible)
  · rw [made]
    let table := (state.table.register link mine).1
    let generation := state.table.generation + 1
    let more := link.path.routes.map (fun r => LinkOp.addRoute link.path.face r.name) ++
      [.untilEnded link.fingerprint generation link.path.face]
    let after : Links :=
      ⟨table, state.contexts, state.closes ++ (state.table.register link mine).2.1, state.routed,
        state.tasks.set i (more ++ [])⟩
    change after.Sound
    have tasks : after.tasks = state.tasks.set i (more ++ []) := rfl
    have kept : ∀ {x}, x ≠ .register link mine → state.Pending x → after.Pending x :=
      fun other => pending_run here tasks other
    have removing : ∀ face name, after.Pending (.removeRoute face name) →
        state.Pending (.removeRoute face name) := by
      intro face name found
      refine (pending_of_run here tasks found).resolve_left ?_
      intro new
      rcases List.mem_append.mp new with adds | ends
      · obtain ⟨r, _, is⟩ := List.mem_map.mp adds
        cases is
      · cases List.mem_singleton.mp ends
    -- A path is the new one, or was there.
    have path : ∀ key, ∀ p ∈ table.paths key,
        key = link.fingerprint ∧ p = ⟨link.path, generation⟩ ∨ p ∈ state.table.paths key := by
      intro key p among
      rw [paths] at among
      split at among
      · next here' =>
        rw [here']
        rcases List.mem_append.mp among with old | new
        · exact Or.inr (List.mem_filter.mp old).1
        · exact Or.inl ⟨rfl, List.mem_singleton.mp new⟩
      · exact Or.inr among
    have shown' : ∀ key held, table.live.lookup key = some held → ∀ id ∈ held.identities,
        id ∈ link.identities ∨ ∃ key' before, state.table.live.lookup key' = some before ∧
          id ∈ before.identities := by
      intro key held found id shown
      rw [looked] at found
      split at found
      · cases found
        rw [registered_identities] at shown
        refine (mem_shownWith shown).imp_right ?_
        rintro ⟨before, was, old⟩
        exact ⟨_, before, was, old⟩
      · exact Or.inr ⟨key, held, found, shown⟩
    have face : ∀ number, number ≠ i → ∀ key, ∀ p ∈ table.paths key, p.path.face = ⟨number⟩ →
        p ∈ state.table.paths key := by
      intro number other key p among same
      rcases path key p among with ⟨_, rfl⟩ | was
      · cases own.symm.trans same
        exact absurd rfl other
      · exact was
    have fresh : ∀ key, ∀ p ∈ state.table.paths key, p.path.face ≠ link.path.face := by
      rw [own]
      exact untouched.path
    have others := @Sound.others state after i _ [] more sound here tasks
      (fun number other key q among same => ⟨q, face number other key q among same, same, rfl⟩)
      (fun number other before => ⟨fun key p among same =>
        before.path key p (face number other key p among same) same, before.routed,
          fun name found => before.removed name (removing _ name found)⟩) (by
        intro x among
        rw [List.append_nil] at among
        rcases List.mem_append.mp among with adds | ends
        · obtain ⟨r, _, rfl⟩ := List.mem_map.mp adds
          exact own
        · rw [List.mem_singleton.mp ends]
          refine ⟨own, ?_⟩
          intro key p among same
          rcases path key p among with ⟨here', rfl⟩ | was
          · exact ⟨here', rfl⟩
          · exact absurd same (untouched.path key p was))
    refine ⟨?_, ?_, ?_, others.1, others.2, ?_, ?_, ?_, ?_, ?_⟩
    · intro key p among
      change p.generation ≤ table.generation
      rw [LinkTable.register_generation]
      rcases path key p among with ⟨_, rfl⟩ | was
      · exact le_rfl
      · exact (sound.numbered key p was).trans (Nat.le_succ _)
    · intro key
      change ((table.paths key).map LivePath.generation).Nodup
      rw [paths]
      split
      · rw [List.map_append, List.map_singleton, List.nodup_append]
        refine ⟨((List.filter_sublist).map _).nodup (sound.distinct _), List.nodup_singleton _, ?_⟩
        rintro g old g' new rfl
        obtain ⟨p, among, rfl⟩ := List.mem_map.mp old
        have below := sound.numbered _ p (List.mem_filter.mp among).1
        rw [List.mem_singleton.mp new] at below
        exact Nat.lt_irrefl _ below
      · exact sound.distinct key
    · intro key key' p among q among' same
      rcases path key p among with ⟨here', rfl⟩ | was
      · rcases path key' q among' with ⟨there, rfl⟩ | was'
        · exact ⟨here'.trans there.symm, rfl⟩
        · exact absurd same.symm (fresh key' q was')
      · rcases path key' q among' with ⟨_, rfl⟩ | was'
        · exact absurd same (fresh key p was)
        · exact sound.own key key' p was q was' same
    · intro key p among r route
      rcases path key p among with ⟨_, rfl⟩ | was
      · right
        apply pending_more here tasks
        exact List.mem_append_left _ (List.mem_map_of_mem route)
      · refine (sound.listed key p was r route).imp_right (kept ?_)
        intro impossible
        cases impossible
    · intro key p among name found
      rcases path key p among with ⟨_, rfl⟩ | was
      · rw [own] at found
        exact absurd found (untouched.routed name)
      · refine (sound.routed key p was name found).imp_right (kept ?_)
        intro impossible
        cases impossible
    · intro key p among name found
      have before := removing _ name found
      rcases path key p among with ⟨_, rfl⟩ | was
      · rw [own] at before
        exact absurd before (untouched.removed name)
      · exact sound.gone key p was name before
    · intro key held found id shown
      rcases shown' key held found id shown with new | ⟨key', before, was, old⟩
      · exact covers id new
      · exact sound.covers key' before was id old
    · intro key held found id shown ctx newest ns revoked
      apply kept
      · intro impossible
        cases impossible
      · rcases shown' key held found id shown with new | ⟨key', before, was, old⟩
        · exact orderly id new ctx newest ns revoked
        · exact sound.unrevoked key' before was id old ctx newest ns revoked

/-- Where a context revokes one identity of a link at most, it leaves none that it revokes. -/
theorem closeRevoked_sound {ctx : TrustContext}
    (here : state.tasks[i]? = some (.closeRevoked ctx :: rest))
    (orderly : ∀ key link, state.table.live.lookup key = some link →
      (link.identities.filter (LiveLink.isRevoked ctx)).length ≤ 1) : (state.run i).Sound := by
  rw [run_eq here]
  let table := (state.table.closeRevoked ctx).1
  let more := (state.table.closeRevoked ctx).2.2.flatMap removeDropped
  let after : Links :=
    ⟨table, state.contexts, state.closes ++ (state.table.closeRevoked ctx).2.1, state.routed,
      state.tasks.set i (more ++ rest)⟩
  change after.Sound
  have tasks : after.tasks = state.tasks.set i (more ++ rest) := rfl
  have looked : ∀ key held, table.live.lookup key = some held →
      ∃ link, state.table.live.lookup key = some link ∧ held = (link.revoke ctx).1 := by
    intro key held found
    rw [closeRevoked_lookup] at found
    obtain ⟨link, was, same⟩ := Option.map_eq_some_iff.mp found
    exact ⟨link, was, same.symm⟩
  have path : ∀ key, ∀ q ∈ table.paths key, ∃ link, state.table.live.lookup key = some link ∧
      q ∈ (link.revoke ctx).1.paths := by
    intro key q among
    obtain ⟨held, found, among⟩ := LinkTable.mem_paths.mp among
    obtain ⟨link, was, rfl⟩ := looked key held found
    exact ⟨link, was, among⟩
  have drops : ∀ {key link}, state.table.live.lookup key = some link →
      ∀ dropped ∈ (link.revoke ctx).2.2, ∀ face gone, (face, gone) ∈ dropped.routes →
        ∀ name ∈ gone, after.Pending (.removeRoute face name) := by
    intro key link was dropped reported face gone among name member
    apply pending_more here tasks
    refine List.mem_flatMap.mpr ⟨dropped, mem_closed.mpr ⟨key, link, was, reported⟩, ?_⟩
    exact List.mem_flatMap.mpr ⟨_, among, List.mem_map_of_mem member⟩
  have before : ∀ key, ∀ q ∈ table.paths key, ∃ p ∈ state.table.paths key,
      q.generation = p.generation ∧ q.path.face = p.path.face ∧
        (∀ r ∈ q.path.routes, r ∈ p.path.routes) ∧
          ∀ r ∈ p.path.routes, r ∈ q.path.routes ∨
            after.Pending (.removeRoute p.path.face r.name) := by
    intro key q among
    obtain ⟨link, was, among⟩ := path key q among
    obtain ⟨p, old, generation, face, _, fewer, others⟩ := LiveLink.revoke_path among
    refine ⟨p, LinkTable.mem_paths.mpr ⟨link, was, old⟩, generation, face, fewer, ?_⟩
    intro r route
    refine (others r route).imp_right ?_
    rintro ⟨dropped, reported, gone, among, member⟩
    exact drops was dropped reported _ gone among r.name member
  have removing : ∀ face name, after.Pending (.removeRoute face name) →
      state.Pending (.removeRoute face name) ∨ ∃ key link dropped gone,
        state.table.live.lookup key = some link ∧ dropped ∈ (link.revoke ctx).2.2 ∧
          (face, gone) ∈ dropped.routes ∧ name ∈ gone := by
    intro face name found
    rcases pending_of_run here tasks found with new | old
    · right
      obtain ⟨dropped, reported, among⟩ := List.mem_flatMap.mp new
      obtain ⟨key, link, was, reports⟩ := mem_closed.mp reported
      obtain ⟨entry, entered, is⟩ := List.mem_flatMap.mp among
      obtain ⟨name', member, is⟩ := List.mem_map.mp is
      cases is
      exact ⟨key, link, dropped, entry.2, was, reports, entered, member⟩
    · exact Or.inl old
  have faces : ∀ number key, ∀ q ∈ table.paths key, q.path.face = ⟨number⟩ →
      ∃ p ∈ state.table.paths key, p.path.face = ⟨number⟩ ∧ p.generation = q.generation := by
    intro number key q among same
    obtain ⟨p, old, generation, face, _⟩ := before key q among
    exact ⟨p, old, face.symm.trans same, generation.symm⟩
  have distinct : ∀ key, ((table.paths key).map LivePath.generation).Nodup := by
    intro key
    have was := sound.distinct key
    unfold LinkTable.paths at was ⊢
    change (((((state.table.closeRevoked ctx).1.live.lookup key).map LiveLink.paths).getD []).map
      LivePath.generation).Nodup
    rw [closeRevoked_lookup]
    cases held : state.table.live.lookup key with
    | none => exact List.nodup_nil
    | some link =>
      rw [held] at was
      change ((link.revoke ctx).1.paths.map LivePath.generation).Nodup
      rw [LiveLink.revoke_generations]
      exact was
  have others := @Sound.others state after i _ rest more sound here tasks
    (fun number _ => faces number) (by
      intro number _ untouched
      refine ⟨?_, untouched.routed, ?_⟩
      · intro key q among same
        obtain ⟨p, old, face, _⟩ := faces number key q among same
        exact untouched.path key p old face
      · intro name found
        rcases removing _ name found with
          old | ⟨key, link, dropped, gone, was, reports, among, lost⟩
        · exact untouched.removed name old
        · obtain ⟨p, old, face, _⟩ := LiveLink.revoke_dropped reports among lost
          exact untouched.path key p (LinkTable.mem_paths.mpr ⟨link, was, old⟩) face) (by
      intro x among
      rcases List.mem_append.mp among with new | old
      · obtain ⟨dropped, _, among⟩ := List.mem_flatMap.mp new
        obtain ⟨entry, _, is⟩ := List.mem_flatMap.mp among
        obtain ⟨name, _, rfl⟩ := List.mem_map.mp is
        trivial
      · exact sound.remainder here (faces i) x old)
  refine ⟨?_, distinct, ?_, others.1, others.2, ?_, ?_, ?_, ?_, ?_⟩
  · intro key q among
    obtain ⟨p, old, generation, _⟩ := before key q among
    rw [generation]
    exact sound.numbered key p old
  · intro key key' q among q' among' same
    obtain ⟨p, old, generation, face, _⟩ := before key q among
    obtain ⟨p', old', generation', face', _⟩ := before key' q' among'
    obtain ⟨keys, paths⟩ := sound.own key key' p old p' old' (face.symm.trans (same.trans face'))
    subst keys
    refine ⟨rfl, List.inj_on_of_nodup_map (distinct key) among among' ?_⟩
    rw [generation, generation', paths]
  · intro key q among r route
    obtain ⟨p, old, _, face, fewer, _⟩ := before key q among
    rw [face]
    refine (sound.listed key p old r (fewer r route)).imp_right ?_
    exact pending_run here tasks (by intro impossible; cases impossible)
  · intro key q among name found
    obtain ⟨p, old, _, face, _, lost⟩ := before key q among
    rw [face] at found ⊢
    rcases sound.routed key p old name found with ⟨r, route, rfl⟩ | pending
    · exact (lost r route).imp_left fun stays => ⟨r, stays, rfl⟩
    · exact Or.inr (pending_run here tasks (by intro impossible; cases impossible) pending)
  · intro key q among name found r route
    obtain ⟨p, old, _, face, fewer, _⟩ := before key q among
    rcases removing _ name found with pending | ⟨key', link, dropped, gone, was, reports, mem, lost⟩
    · rw [face] at pending
      exact sound.gone key p old name pending r (fewer r route)
    · obtain ⟨p', old', face', loses⟩ := LiveLink.revoke_dropped reports mem lost
      have there := LinkTable.mem_paths.mpr ⟨link, was, old'⟩
      obtain ⟨keys, _⟩ := sound.own key key' p old p' there (face.symm.trans face'.symm)
      subst keys
      obtain ⟨link', was', among'⟩ := path key q among
      cases was.symm.trans was'
      refine loses q among' ?_ rfl r route
      intro p'' old'' same
      exact (sound.own key key p'' (LinkTable.mem_paths.mpr ⟨link, was, old''⟩) p' there
        (same.trans face'.symm)).2
  · intro key held found id shown
    obtain ⟨link, was, rfl⟩ := looked key held found
    exact sound.covers key link was id ((revoke_shrinks ctx link).identities.subset shown)
  · intro key held found id shown ctx' newest ns revoked
    obtain ⟨link, was, rfl⟩ := looked key held found
    have old := (revoke_shrinks ctx link).identities.subset shown
    refine pending_run here tasks ?_
      (sound.unrevoked key link was id old ctx' newest ns revoked)
    intro same
    cases same
    rw [LiveLink.revoke_eq_left (orderly key link was)] at shown
    have kept := (List.mem_filter.mp shown).2
    have covered := sound.covers key link was id old
    rw [← ns] at covered
    unfold LiveLink.isRevoked at kept
    rw [revoked, decide_eq_true covered] at kept
    cases kept

/-- A new task. -/
theorem spawn_sound {ops : List LinkOp} (table : after.table = state.table)
    (routed : after.routed = state.routed) (tasks : after.tasks = state.tasks ++ [ops])
    (new : ∀ x ∈ ops, after.OpSound state.tasks.length ops x)
    (removes : ∀ face name, .removeRoute face name ∉ ops)
    (unrevoked : ∀ key link, state.table.live.lookup key = some link → ∀ id ∈ link.identities,
      ∀ ctx ∈ after.contexts, ctx.ns = id.ns → id.certificates.any ctx.isRevoked = true →
        after.Pending (.closeRevoked ctx)) : after.Sound := by
  have kept : ∀ x, state.Pending x → after.Pending x := by
    rintro x ⟨task, member, among⟩
    exact ⟨task, by rw [tasks]; exact List.mem_append_left _ member, among⟩
  have removing : ∀ face name, after.Pending (.removeRoute face name) →
      state.Pending (.removeRoute face name) := by
    rintro face name ⟨task, member, among⟩
    rw [tasks] at member
    rcases List.mem_append.mp member with old | last
    · exact ⟨task, old, among⟩
    · rw [List.mem_singleton.mp last] at among
      exact absurd among (removes face name)
  have untouched : ∀ face, state.Untouched face → after.Untouched face := by
    intro face before
    exact ⟨by rw [table]; exact before.path, by rw [routed]; exact before.routed,
      fun name found => before.removed name (removing face name found)⟩
  refine ⟨?_, ?_, ?_, ?_, ?_, ?_, ?_, ?_, ?_, ?_⟩
  · rw [table]
    exact sound.numbered
  · rw [table]
    exact sound.distinct
  · rw [table]
    exact sound.own
  · intro number task found x among
    rw [tasks] at found
    rcases Nat.lt_or_ge number state.tasks.length with inside | beyond
    · rw [List.getElem?_append_left inside] at found
      refine (sound.ops number task found x among).mono ?_ (untouched _)
      rw [table]
      exact fun key q member same => ⟨q, member, same, rfl⟩
    · rw [List.getElem?_append_right beyond] at found
      have inside := (List.getElem?_eq_some_iff.mp found).1
      rw [List.length_singleton] at inside
      obtain rfl : number = state.tasks.length := by omega
      rw [Nat.sub_self] at found
      cases found
      exact new x among
  · intro number beyond
    rw [tasks, List.length_append] at beyond
    exact untouched _ (sound.fresh number (by omega))
  · rw [table, routed]
    exact fun key p among r route => (sound.listed key p among r route).imp_right (kept _)
  · rw [table, routed]
    exact fun key p among name found => (sound.routed key p among name found).imp_right (kept _)
  · rw [table]
    exact fun key p among name found => sound.gone key p among name (removing _ name found)
  · rw [table]
    exact sound.covers
  · rw [table]
    exact unrevoked

theorem establish_sound (link : Registration)
    (mine : Option KeyFingerprint) : (state.establish link mine).Sound := by
  unfold establish
  split
  · next admitted =>
    have untouched := sound.fresh state.tasks.length le_rfl
    refine spawn_sound sound rfl rfl rfl ?_ ?_ ?_
    · intro x among
      rw [List.mem_singleton.mp among]
      refine ⟨rfl, rfl, ⟨untouched.path, untouched.routed, ?_⟩, ?_⟩
      · rintro name ⟨task, member, found⟩
        rcases List.mem_append.mp member with old | last
        · exact untouched.removed name ⟨task, old, found⟩
        · rw [List.mem_singleton.mp last] at found
          cases List.mem_singleton.mp found
      · intro id shown
        have passed := List.all_eq_true.mp admitted id shown
        unfold judged at passed
        rw [Bool.and_eq_true] at passed
        exact of_decide_eq_true passed.1
    · intro face name found
      cases List.mem_singleton.mp found
    · intro key held found id shown ctx newest ns revoked
      obtain ⟨task, member, among⟩ := sound.unrevoked key held found id shown ctx newest ns revoked
      exact ⟨task, List.mem_append_left _ member, among⟩
  · exact sound

theorem adopt_sound (ctx : TrustContext) : (state.adopt ctx).Sound := by
  refine spawn_sound sound rfl rfl rfl ?_ ?_ ?_
  · intro x among
    rw [List.mem_singleton.mp among]
    trivial
  · intro face name found
    cases List.mem_singleton.mp found
  · intro key held found id shown ctx' newest ns revoked
    rcases List.mem_append.mp newest with other | this
    · obtain ⟨task, member, among⟩ := sound.unrevoked key held found id shown ctx'
        (List.mem_filter.mp other).1 ns revoked
      exact ⟨task, List.mem_append_left _ member, among⟩
    · rw [List.mem_singleton.mp this]
      exact ⟨_, List.mem_append_right _ (List.mem_singleton_self _), List.mem_singleton_self _⟩

theorem run_sound (task : Nat) (orderly : state.Orderly (.run task)) :
    (state.run task).Sound := by
  have unchanged : (∀ op rest, state.tasks[task]? ≠ some (op :: rest)) →
      (state.run task).Sound := by
    intro idle
    unfold run
    split
    · next op rest found => exact absurd found (idle op rest)
    · exact sound
  cases found : state.tasks[task]? with
  | none =>
    apply unchanged
    intro op rest is
    cases found.symm.trans is
  | some ops =>
    cases ops with
    | nil =>
      apply unchanged
      intro op rest is
      cases found.symm.trans is
    | cons op rest =>
      simp only [Links.Orderly, found, Option.bind_some, List.head?_cons] at orderly
      cases op with
      | register link mine => exact register_sound sound found orderly
      | addRoute face name => exact addRoute_sound sound found orderly
      | untilEnded fingerprint generation face => exact untilEnded_sound sound found
      | removeFace face => exact removeFace_sound sound found
      | closeRevoked ctx => exact closeRevoked_sound sound found orderly
      | removeRoute face name => exact removeRoute_sound sound found

theorem step_sound {action : LinksAction} (orderly : state.Orderly action) :
    (state.step action).Sound := by
  cases action with
  | establish link mine => exact establish_sound sound link mine
  | adopt ctx => exact adopt_sound sound ctx
  | run task => exact run_sound sound task orderly

end

theorem start_sound (contexts : List TrustContext) : (start contexts).Sound := by
  have idle : ∀ x, ¬(start contexts).Pending x := by
    rintro x ⟨task, member, _⟩
    cases member
  have none' : ∀ key link, (start contexts).table.live.lookup key ≠ some link := by
    intro key link held
    cases held
  refine ⟨?_, ?_, ?_, ?_, ?_, ?_, ?_, ?_, ?_, ?_⟩
  · intro key p among
    cases among
  · exact fun key => List.nodup_nil
  · intro key key' p among
    cases among
  · intro number task found
    cases found
  · intro number _
    refine ⟨?_, ?_, fun name => idle _⟩
    · intro key p among
      cases among
    · exact fun name => Finset.notMem_empty _
  · intro key p among
    cases among
  · intro key p among
    cases among
  · intro key p among
    cases among
  · exact fun key link held => absurd held (none' key link)
  · exact fun key link held => absurd held (none' key link)

/-- Once every task waits, no link shows what is revoked, and the forwarder has its routes. -/
theorem Sound.safe (sound : state.Sound) (settled : state.Settled) : state.Safe := by
  have idle : ∀ x : LinkOp, x.waits = false → ¬state.Pending x := by
    rintro x busy ⟨task, member, among⟩
    rw [settled task member x among] at busy
    cases busy
  constructor
  · intro key link held _ id shown ctx newest ns
    by_contra revoked
    have pending := sound.unrevoked key link held id shown ctx newest ns
      (Bool.eq_true_of_not_eq_false revoked)
    exact idle _ rfl pending
  · intro key link held p among _ name
    have there := LinkTable.mem_paths.mpr ⟨link, held, among⟩
    constructor
    · intro found
      exact (sound.routed key p there name found).resolve_right (idle _ rfl)
    · rintro ⟨r, route, rfl⟩
      exact (sound.listed key p there r route).resolve_right (idle _ rfl)

theorem takesRevoked_of_orderly {action : LinksAction} (orderly : state.Orderly action) :
    state.TakesRevoked action := by
  cases action with
  | establish link mine => trivial
  | adopt ctx => trivial
  | run task =>
    intro ctx next key link held
    cases found : state.tasks[task]? with
    | none =>
      rw [found] at next
      cases next
    | some ops =>
      cases ops with
      | nil =>
        rw [found] at next
        cases next
      | cons op rest =>
        rw [found, Option.bind_some, List.head?_cons, Option.some.injEq] at next
        subst next
        simp only [Links.Orderly, found, Option.bind_some, List.head?_cons] at orderly
        have few := orderly key link held
        rw [run_eq found]
        constructor
        · change (state.table.closeRevoked ctx).1.live.lookup key = some (link.left ctx)
          rw [closeRevoked_lookup, held, Option.map_some, LiveLink.revoke_eq_left few]
        · intro some' none' p among isOpen
          obtain ⟨close, closes, same⟩ := LiveLink.revoke_closes few some' none' among
          refine isOpen close (List.mem_append_right _ ?_) same
          exact List.mem_flatMap.mpr
            ⟨_, List.mem_map_of_mem (HashMap.mem_pairs.mpr held), closes⟩

/-! ### Runs -/

/-- A revocation takes what it should, and no link shows it for longer than the tasks take, where
no context comes in between deciding on a path and recording it, nor between recording it and
adding its routes, and none revokes two identities of a link at once. -/
theorem revoked_keeps_no_link (contexts : List TrustContext) (actions : List LinksAction)
    (orderly : Run.Throughout step (start contexts) actions Orderly) :
    Run.Throughout step (start contexts) actions TakesRevoked ∧
      ((actions.foldl step (start contexts)).Settled →
        (actions.foldl step (start contexts)).Safe) := by
  have sound := @Run.foldl_of_throughout _ _ step Sound Orderly
    (fun _ _ sound orderly => step_sound sound orderly) (start contexts) (start_sound contexts)
    actions orderly
  refine ⟨?_, sound.safe⟩
  intro earlier action later same
  exact takesRevoked_of_orderly (orderly earlier action later same)

/-! ### A device with two identities -/

namespace Example

def home : Name := ⟨[.generic [104]]⟩

def fleet : Name := ⟨[.generic [102]]⟩

/-- A namespace in that of the home. -/
def shed : Name := ⟨[.generic [104], .generic [115]]⟩

def issuer : Name := ⟨[.generic [105]]⟩

def device (ns : Name) : Name := ns.appendComponent (text "node")

/-- An identity whose certificate the issuer has signed. -/
def node (ns : Name) : Identity where
  ns := ns
  version := 1
  device := device ns
  role := ⟨"node"⟩
  certificates := [device ns, issuer]
  served := none

def ctx (ns : Name) (version : Nat) (isRevoked : Name → Bool) : TrustContext where
  ns := ns
  version := version
  linkPolicy := ⟨false, fun _ => true, fun _ => true⟩
  caEndpoints := []
  anchors := []
  isAnchor _ := false
  isRevoked := isRevoked

def key : KeyFingerprint := ⟨.replicate 32 1⟩

def link (spaces : List Name) : Registration where
  fingerprint := key
  peer := none
  identities := spaces.map node
  shown := []
  enrolling := []
  path := ⟨⟨0⟩, ⟨0⟩, .accepted, .link, spaces.map fun ns => ⟨device ns, 0⟩⟩

/-- The home's new context, which revokes the issuer. -/
def revoking : TrustContext := ctx home 2 fun name => name = issuer

def held (spaces : List Name) : List TrustContext := spaces.map fun ns => ctx ns 1 fun _ => false

/-- The device links, and the home revokes the issuer. -/
def revoke (spaces : List Name) : List LinksAction :=
  [.establish (link spaces) none, .run 0, .run 0, .run 0, .adopt revoking, .run 1, .run 1]

def reached (spaces : List Name) : Links := (revoke spaces).foldl step (start (held spaces))

def leftOpen (state : Links) : Prop :=
  ∃ pair ∈ state.table.live.pairs, (∃ p ∈ pair.2.paths, state.Open p) ∧
    ∃ id ∈ pair.2.identities, ∃ ctx ∈ state.contexts,
      ctx.ns = id.ns ∧ id.certificates.any ctx.isRevoked = true

instance (state : Links) (p : LivePath) : Decidable (state.Open p) :=
  inferInstanceAs (Decidable (∀ close ∈ state.closes, close.handle ≠ p.path.handle))

instance (state : Links) : Decidable (leftOpen state) :=
  inferInstanceAs (Decidable (∃ pair ∈ state.table.live.pairs, (∃ p ∈ pair.2.paths, state.Open p) ∧
    ∃ id ∈ pair.2.identities, ∃ ctx ∈ state.contexts,
      ctx.ns = id.ns ∧ id.certificates.any ctx.isRevoked = true))

/-- The first identity alone is taken from the link. -/
theorem nested_identity_stays : ¬∀ contexts actions,
    Run.Throughout step (start contexts) actions TakesRevoked ∧
      ((actions.foldl step (start contexts)).Settled →
        (actions.foldl step (start contexts)).Safe) := by
  intro always
  have settled : (reached [shed, home]).Settled := by decide +kernel
  have safe := (always (held [shed, home]) (revoke [shed, home])).2 settled
  have left : leftOpen (reached [shed, home]) := by decide +kernel
  obtain ⟨pair, among, isOpen, id, shown, ctx, newest, ns, revoked⟩ := left
  have unrevoked := safe.unrevoked pair.1 pair.2 (HashMap.mem_pairs.mp among) isOpen id shown ctx
    newest ns
  rw [revoked] at unrevoked
  cases unrevoked

section Orderly

variable {state : Links} {task : Nat}

theorem orderly_register {link : Registration} {mine : Option KeyFingerprint}
    (next : (state.tasks[task]?).bind List.head? = some (.register link mine))
    (unrevoked : ∀ id ∈ link.identities, ∀ ctx ∈ state.contexts,
      id.certificates.any ctx.isRevoked = false) : state.Orderly (.run task) := by
  simp only [Orderly, next]
  intro id shown ctx newest _ revoked
  rw [unrevoked id shown ctx newest] at revoked
  cases revoked

theorem orderly_addRoute
    (next : (state.tasks[task]?).bind List.head? = some (.addRoute face name))
    (routed : ∀ pair ∈ state.table.live.pairs, ∀ p ∈ pair.2.paths,
      ∃ r ∈ p.path.routes, r.name = name) : state.Orderly (.run task) := by
  simp only [Orderly, next]
  intro key p among _
  obtain ⟨link, held, path⟩ := LinkTable.mem_paths.mp among
  exact Or.inl (routed (key, link) (HashMap.mem_pairs.mpr held) p path)

theorem orderly_closeRevoked {ctx : TrustContext}
    (next : (state.tasks[task]?).bind List.head? = some (.closeRevoked ctx))
    (few : ∀ pair ∈ state.table.live.pairs,
      (pair.2.identities.filter (LiveLink.isRevoked ctx)).length ≤ 1) :
    state.Orderly (.run task) := by
  simp only [Orderly, next]
  exact fun key link held => few (key, link) (HashMap.mem_pairs.mpr held)

theorem orderly_removeRoute {face : FaceId} {name : Name}
    (next : (state.tasks[task]?).bind List.head? = some (.removeRoute face name)) :
    state.Orderly (.run task) := by
  simp only [Orderly, next]

end Orderly

theorem fleet_identity_keeps :
    let state := reached [home, fleet]
    Run.Throughout step (start (held [home, fleet])) (revoke [home, fleet]) TakesRevoked ∧
      (state.Settled → state.Safe) := by
  apply revoked_keeps_no_link
  unfold revoke
  simp only [Run.throughout_cons]
  refine ⟨trivial, ?_, ?_, ?_, trivial, ?_, ?_, Run.throughout_nil _ _⟩
  · exact orderly_register rfl (by decide +kernel)
  · exact orderly_addRoute rfl (by decide +kernel)
  · exact orderly_addRoute rfl (by decide +kernel)
  · exact orderly_closeRevoked rfl (by decide +kernel)
  · refine @orderly_removeRoute _ _ ⟨0⟩ (device home) ?_
    with_unfolding_all rfl

end Example
end Links
end NdnExt.Link
