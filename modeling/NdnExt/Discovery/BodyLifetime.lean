import Mathlib.Data.Finset.Card
import NdnExt.Discovery.Calls
import NdnExt.Discovery.PublishFind
import NdnExt.Lib.Run

/-! How long the body of a service record is served. -/

namespace NdnExt.Discovery

open NdnExt.Lib List Option

/-! ### Publishing and withdrawing -/

inductive LocalCall where
  | publish (record : ServiceRecord) (timestampMs : Nat)
  | publishWithTtl (record : ServiceRecord) (ttlMs timestampMs : Nat) (now : Nanos)
  | publishWithOwner (record : ServiceRecord) (ownerFace : FaceId) (timestampMs : Nat)
  | publishWithBody (record : ServiceRecord) (body : Bytes) (timestampMs : Nat)
  | withdraw (announcedPrefix : Name)
  | onTick (ctx : Context) (now : Nanos)
  | onFaceDown (ctx : Context) (face : FaceId)

namespace LocalCall

/-- The record that a call is to publish. -/
def record : LocalCall → Option ServiceRecord
  | publish record _ => some record
  | publishWithTtl record _ _ _ => some record
  | publishWithOwner record _ _ => some record
  | publishWithBody record _ _ => some record
  | _ => none

def withdrawn : LocalCall → Option Name
  | withdraw announcedPrefix => some announcedPrefix
  | _ => none

def publishesFor (pair : Name × Name) (call : LocalCall) : Bool :=
  call.record.any fun record => record.pair = pair

/-- A call that publishes for a prefix and a node, or withdraws the prefix. -/
def concerns (pair : Name × Name) (call : LocalCall) : Bool :=
  call.publishesFor pair || call.withdrawn = some pair.1

/-- The prefix and the node that a body is published for. -/
def bodyPair : LocalCall → Option (Name × Name)
  | publishWithBody record _ _ => some record.pair
  | _ => none

/-- The body that a call publishes for a prefix and a node, as it is stored. -/
def bodyFor (config : ServiceDiscoveryConfig) (pair : Name × Name) : LocalCall → Option Bytes
  | publishWithBody record body timestampMs =>
    if record.pair = pair then config.wrap body { record with version := timestampMs } else none
  | _ => none

/-- The pair that a call stores a body for, and the body. -/
def stored (config : ServiceDiscoveryConfig) : LocalCall → Option ((Name × Name) × Bytes)
  | publishWithBody record body timestampMs =>
    (config.wrap body { record with version := timestampMs }).map fun wrapped =>
      (record.pair, wrapped)
  | _ => none

end LocalCall

namespace ServiceDiscovery

section Definitions

variable (texts : Texts) (root peersPrefix : Name) (config : ServiceDiscoveryConfig)

def publishWithTtl (sd : ServiceDiscovery) (record : ServiceRecord) (ttlMs timestampMs : Nat)
    (now : Nanos) : ServiceDiscovery :=
  { sd with
    localRecords := putLocal sd.localRecords
      ⟨{ record with version := timestampMs }, timestampMs, some (now + fromMillis ttlMs), none⟩ }

def publishWithOwner (sd : ServiceDiscovery) (record : ServiceRecord) (ownerFace : FaceId)
    (timestampMs : Nat) : ServiceDiscovery :=
  { sd with
    localRecords := putLocal sd.localRecords
      ⟨{ record with version := timestampMs }, timestampMs, none, some ownerFace⟩ }

def withdraw (sd : ServiceDiscovery) (announcedPrefix : Name) : ServiceDiscovery :=
  { sd with
    localRecords := sd.localRecords.filter fun e => e.record.announcedPrefix ≠ announcedPrefix }

def applyCall (sd : ServiceDiscovery) : LocalCall → ServiceDiscovery
  | .publish record timestampMs => publish sd record timestampMs
  | .publishWithTtl record ttlMs timestampMs now => publishWithTtl sd record ttlMs timestampMs now
  | .publishWithOwner record ownerFace timestampMs =>
    publishWithOwner sd record ownerFace timestampMs
  | .publishWithBody record body timestampMs =>
    publishWithBody texts config sd record body timestampMs
  | .withdraw announcedPrefix => withdraw sd announcedPrefix
  | .onTick ctx now => (onTick root config sd ctx now).1
  | .onFaceDown ctx face => (onFaceDown sd ctx face).1

def runCalls (calls : List LocalCall) : ServiceDiscovery :=
  calls.foldl (applyCall texts root config) new

/-- The name that the body for a prefix and a node is asked with. -/
def bodyNameOf (pair : Name × Name) (timestampMs : Nat) : Name :=
  makeBodyName (makeRecordNameUnder texts root pair.1 pair.2 timestampMs) root

def bodyInterest (sd : ServiceDiscovery) (ctx : Context) (pair : Name × Name) (timestampMs : Nat)
    (face : FaceId) : List Effect :=
  (onInboundPacket texts root peersPrefix config sd ctx
    (.interest (bodyNameOf texts root pair timestampMs)) face).2

/-- The last publication for a prefix and a node had a body, and its record is held. -/
def Standing (calls : List LocalCall) (pair : Name × Name) (wrapped : Bytes) : Prop :=
  ∃ record body timestampMs,
    Run.latest (Option.guard (LocalCall.publishesFor pair)) calls =
        some (.publishWithBody record body timestampMs) ∧
      config.wrap body { record with version := timestampMs } = some wrapped ∧
        (⟨{ record with version := timestampMs }, timestampMs, none, none⟩ : RecordEntry) ∈
          (runCalls texts root config calls).localRecords

/-- A body is served while the record it was published with is held, and no longer. -/
structure LivesWithRecord (calls : List LocalCall) (pair : Name × Name) : Prop where
  answered : ∀ ctx timestampMs face,
    bodyInterest texts root peersPrefix config (runCalls texts root config calls) ctx pair
        timestampMs face ≠ [] ↔
      ∃ wrapped, Standing texts root config calls pair wrapped
  body : ∀ ctx timestampMs face wrapped, Standing texts root config calls pair wrapped →
    bodyInterest texts root peersPrefix config (runCalls texts root config calls) ctx pair
        timestampMs face =
      [.sendOn face (.data (signedData config (bodyNameOf texts root pair timestampMs) wrapped))]

/-- The pairs that bodies are published for are fewer than the store has room for. -/
def FewBodies (calls : List LocalCall) : Prop :=
  (calls.filterMap LocalCall.bodyPair).toFinset.card < config.maxBodyEntries

instance (calls : List LocalCall) : Decidable (FewBodies config calls) := Nat.decLt _ _

/-- No body for another pair is stored under the key that a pair is asked for with. -/
def KeysApart (calls : List LocalCall) (pair : Name × Name) : Prop :=
  ∀ other ∈ calls.filterMap LocalCall.bodyPair,
    prefixHashHex texts other.1 = prefixHashHex texts pair.1 →
      texts.display other.2 = uriOf pair.2.components → other = pair

/-- A node with a name, whose text is the one that is written by hand for an Interest. -/
def Readable (node : Name) : Prop :=
  node.components ≠ [] ∧ texts.display node = uriOf node.components

instance (node : Name) : Decidable (Readable texts node) := by
  unfold Readable
  infer_instance

/-- The last call that publishes for the pair or withdraws its prefix stores a body where it can be
asked for, or none of the calls does. -/
def InStep (calls : List LocalCall) (pair : Name × Name) : Prop :=
  ∀ last, Run.latest (Option.guard (LocalCall.concerns pair)) calls = some last →
    if (last.bodyFor config pair).isSome then Readable texts pair.2
    else Readable texts pair.2 → ∀ call ∈ calls, call.bodyFor config pair = none

end Definitions

section Lifetime

variable {texts : Texts} {root peersPrefix : Name} {config : ServiceDiscoveryConfig}
  {sd : ServiceDiscovery} {calls : List LocalCall} {pair : Name × Name}

theorem runCalls_append (calls : List LocalCall) (call : LocalCall) :
    runCalls texts root config (calls ++ [call]) =
      applyCall texts root config (runCalls texts root config calls) call := by
  unfold runCalls
  rw [foldl_append, foldl_cons, foldl_nil]

/-! ### Records -/

theorem mem_putLocal_self (records : List RecordEntry) (entry : RecordEntry) :
    entry ∈ putLocal records entry := by
  unfold putLocal
  split
  · next i found =>
    have within := (List.findIdx?_eq_some_iff_findIdx_eq.mp found).1
    exact mem_set within entry
  · exact mem_append_right _ (mem_singleton_self entry)

theorem mem_putLocal_other {records : List RecordEntry} {entry other : RecordEntry}
    (different : entry.record.pair ≠ other.record.pair) :
    other ∈ putLocal records entry ↔ other ∈ records := by
  have distinct : other ≠ entry := fun same => different (congrArg (·.record.pair) same).symm
  unfold putLocal
  split
  · next i found =>
    have replaced := (List.findIdx?_eq_some_iff_getElem.mp found).2.1
    constructor
    · intro among
      exact (mem_or_eq_of_mem_set among).resolve_right distinct
    · intro among
      rcases mem_iff_getElem?.mp among with ⟨j, stands⟩
      have elsewhere : i ≠ j := by
        intro same
        subst same
        rcases List.getElem?_eq_some_iff.mp stands with ⟨_, is⟩
        rw [is] at replaced
        exact different (samePair_iff.mp replaced).symm
      exact mem_iff_getElem?.mpr ⟨j, by rw [List.getElem?_set_ne elsewhere, stands]⟩
  · rw [mem_append, mem_singleton, or_iff_left distinct]

/-- A record that neither expires nor has an owner stays where its pair is not concerned. -/
theorem mem_applyCall {entry : RecordEntry} (unending : entry.expiresAt = none)
    (unowned : entry.ownerFace = none) {call : LocalCall}
    (apart : call.concerns entry.record.pair = false) :
    entry ∈ (applyCall texts root config sd call).localRecords ↔ entry ∈ sd.localRecords := by
  have otherPair : ∀ record, call.record = some record → record.pair ≠ entry.record.pair := by
    intro record publishes same
    have publishesFor : call.publishesFor entry.record.pair = true := by
      unfold LocalCall.publishesFor
      rw [publishes, any_some, decide_eq_true same]
    rw [LocalCall.concerns, publishesFor, Bool.true_or] at apart
    cases apart
  cases call with
  | publish record timestampMs => exact mem_putLocal_other (otherPair record rfl)
  | publishWithTtl record ttlMs timestampMs now => exact mem_putLocal_other (otherPair record rfl)
  | publishWithOwner record ownerFace timestampMs =>
    exact mem_putLocal_other (otherPair record rfl)
  | publishWithBody record body timestampMs =>
    change entry ∈ (publishWithBody texts config sd record body timestampMs).localRecords ↔ _
    unfold publishWithBody
    dsimp only
    split
    · exact Iff.rfl
    · exact mem_putLocal_other (otherPair record rfl)
  | withdraw announcedPrefix =>
    have otherPrefix : entry.record.announcedPrefix ≠ announcedPrefix := by
      intro same
      rw [← same] at apart
      simp [LocalCall.concerns, LocalCall.withdrawn, ServiceRecord.pair] at apart
    change entry ∈ sd.localRecords.filter _ ↔ _
    rw [mem_filter, decide_eq_true otherPrefix, and_iff_left rfl]
  | onTick ctx now =>
    change entry ∈ sd.localRecords.filter _ ↔ _
    rw [mem_filter, unending, all_none, and_iff_left rfl]
  | onFaceDown ctx face =>
    change entry ∈ sd.localRecords.filter _ ↔ _
    rw [mem_filter, unowned, and_iff_left (by simp)]

theorem pair_of_last {record : ServiceRecord} {body : Bytes} {timestampMs : Nat}
    (last : Run.latest (Option.guard (LocalCall.publishesFor pair)) calls =
      some (.publishWithBody record body timestampMs)) : record.pair = pair := by
  have publishes := Run.kind_of_latest last
  exact of_decide_eq_true publishes

theorem concerns_of_publishesFor {call : LocalCall} (publishes : call.publishesFor pair = true) :
    call.concerns pair = true := by
  rw [LocalCall.concerns, publishes, Bool.true_or]

variable {wrapped : Bytes}

theorem publishesFor_of_bodyFor {call : LocalCall}
    (stores : call.bodyFor config pair = some wrapped) : call.publishesFor pair = true := by
  cases call with
  | publishWithBody record body timestampMs =>
    by_cases same : record.pair = pair
    · exact decide_eq_true same
    · have stores' := (if_neg same).symm.trans stores
      cases stores'
  | _ => cases stores

theorem standing_of_publishes {call : LocalCall}
    (publishes : call.publishesFor pair = true) :
    Standing texts root config (calls ++ [call]) pair wrapped ↔
      call.bodyFor config pair = some wrapped := by
  unfold Standing
  rw [runCalls_append, Run.latest_guard_append, if_pos publishes]
  constructor
  · rintro ⟨record, body, timestampMs, last, wraps, _⟩
    cases last
    have same : record.pair = pair := of_decide_eq_true publishes
    exact (if_pos same).trans wraps
  · intro stores
    cases call with
    | publishWithBody record body timestampMs =>
      have same : record.pair = pair := of_decide_eq_true publishes
      have wraps : config.wrap body { record with version := timestampMs } = some wrapped :=
        (if_pos same).symm.trans stores
      refine ⟨record, body, timestampMs, rfl, wraps, ?_⟩
      change _ ∈ (publishWithBody texts config _ record body timestampMs).localRecords
      unfold publishWithBody
      dsimp only
      rw [wraps]
      exact mem_putLocal_self _ _
    | _ => cases stores

theorem not_standing_of_withdraws {call : LocalCall}
    (withdraws : call.withdrawn = some pair.1) :
    ¬ Standing texts root config (calls ++ [call]) pair wrapped := by
  cases call with
  | withdraw announcedPrefix =>
    have apart : ¬ (LocalCall.withdraw announcedPrefix).publishesFor pair = true := by
      intro publishes
      cases publishes
    unfold Standing
    rw [runCalls_append, Run.latest_guard_append, if_neg apart]
    rintro ⟨record, body, timestampMs, last, _, held⟩
    have same : record.pair = pair := pair_of_last last
    have kept := of_decide_eq_true (mem_filter.mp held).2
    rw [← same] at withdraws
    exact kept (Option.some.inj withdraws).symm
  | _ => cases withdraws

theorem standing_of_unconcerned {call : LocalCall}
    (unconcerned : call.concerns pair = false) :
    Standing texts root config (calls ++ [call]) pair wrapped ↔
      Standing texts root config calls pair wrapped := by
  have silent : ¬ call.publishesFor pair = true := by
    intro publishes
    rw [concerns_of_publishesFor publishes] at unconcerned
    cases unconcerned
  unfold Standing
  rw [runCalls_append, Run.latest_guard_append, if_neg silent]
  have unchanged : ∀ record body timestampMs,
      Run.latest (Option.guard (LocalCall.publishesFor pair)) calls =
        some (.publishWithBody record body timestampMs) →
      ((⟨{ record with version := timestampMs }, timestampMs, none, none⟩ : RecordEntry) ∈
          (applyCall texts root config (runCalls texts root config calls) call).localRecords ↔
        (⟨{ record with version := timestampMs }, timestampMs, none, none⟩ : RecordEntry) ∈
          (runCalls texts root config calls).localRecords) := by
    intro record body timestampMs last
    have same : record.pair = pair := pair_of_last last
    apply mem_applyCall rfl rfl
    change call.concerns record.pair = false
    rw [same]
    exact unconcerned
  constructor
  · rintro ⟨record, body, timestampMs, last, wraps, held⟩
    exact ⟨record, body, timestampMs, last, wraps,
      (unchanged record body timestampMs last).mp held⟩
  · rintro ⟨record, body, timestampMs, last, wraps, held⟩
    exact ⟨record, body, timestampMs, last, wraps,
      (unchanged record body timestampMs last).mpr held⟩

/-- The record that was last published with a body is held until its prefix is withdrawn or its
pair is published again. -/
theorem standing_iff (wrapped : Bytes) : Standing texts root config calls pair wrapped ↔
    (Run.latest (Option.guard (LocalCall.concerns pair)) calls).bind
      (LocalCall.bodyFor config pair) = some wrapped := by
  induction calls using List.reverseRecOn with
  | nil =>
    constructor
    · rintro ⟨record, body, timestampMs, last, _⟩
      cases last
    · intro none
      cases none
  | append_singleton calls call ih =>
    rw [Run.latest_guard_append]
    by_cases publishes : call.publishesFor pair = true
    · rw [if_pos (concerns_of_publishesFor publishes), bind_some]
      exact standing_of_publishes publishes
    · by_cases concerned : call.concerns pair = true
      · have withdraws : call.withdrawn = some pair.1 := by
          rw [LocalCall.concerns, Bool.eq_false_iff.mpr publishes, Bool.false_or] at concerned
          exact of_decide_eq_true concerned
        rw [if_pos concerned, bind_some, iff_false_left (not_standing_of_withdraws withdraws)]
        intro stores
        exact publishes (publishesFor_of_bodyFor stores)
      · rw [if_neg concerned, ← ih]
        exact standing_of_unconcerned (Bool.eq_false_iff.mpr concerned)

/-! ### Bodies -/

/-- What a body for a pair is stored under. -/
def bodyKeyOf (texts : Texts) (pair : Name × Name) : BodyKey :=
  (prefixHashHex texts pair.1, texts.display pair.2)

theorem insertBody_of_room {store : HashMap BodyKey Bytes}
    (room : store.entries.length < max config.maxBodyEntries 1) (key : BodyKey) (wrapped : Bytes) :
    insertBody config store key wrapped = store.insert key wrapped := by
  unfold insertBody
  dsimp only
  rw [if_neg]
  rw [Bool.and_eq_true, decide_eq_true_eq]
  omega

theorem keys_insertBody {store : HashMap BodyKey Bytes} {key other : BodyKey}
    (among : other ∈ insertBody config store key wrapped) : other = key ∨ other ∈ store := by
  unfold insertBody at among
  rw [AList.mem_insert] at among
  apply among.imp_right
  intro among
  split at among
  · split at among
    · exact (AList.mem_erase.mp among).2
    · exact among
  · exact among

/-- What a call does to the stored bodies. -/
theorem bodyStore_applyCall (sd : ServiceDiscovery) (call : LocalCall) :
    (applyCall texts root config sd call).bodyStore =
      (call.stored config).elim sd.bodyStore fun stored =>
        insertBody config sd.bodyStore (bodyKeyOf texts stored.1) stored.2 := by
  cases call with
  | publishWithBody record body timestampMs =>
    change (publishWithBody texts config sd record body timestampMs).bodyStore = _
    unfold publishWithBody LocalCall.stored
    dsimp only
    cases config.wrap body { record with version := timestampMs } <;> rfl
  | _ => rfl

theorem bodyPair_of_stored {call : LocalCall} {other : Name × Name}
    (stores : call.stored config = some (other, wrapped)) : call.bodyPair = some other := by
  cases call with
  | publishWithBody record body timestampMs =>
    rcases map_eq_some_iff.mp stores with ⟨_, _, same⟩
    exact congrArg (some ·.1) same
  | _ => cases stores

theorem bodyFor_eq (call : LocalCall) : call.bodyFor config pair =
    (call.stored config).bind fun stored => if stored.1 = pair then some stored.2 else none := by
  cases call with
  | publishWithBody record body timestampMs =>
    unfold LocalCall.bodyFor LocalCall.stored
    dsimp only
    cases config.wrap body { record with version := timestampMs } with
    | none => exact ite_self none
    | some wrapped => rfl
  | _ => rfl

theorem keys_runCalls {key : BodyKey} (among : key ∈ (runCalls texts root config calls).bodyStore) :
    ∃ other ∈ calls.filterMap LocalCall.bodyPair, key = bodyKeyOf texts other := by
  induction calls using List.reverseRecOn with
  | nil => cases among
  | append_singleton calls call ih =>
    have earlier : key ∈ (runCalls texts root config calls).bodyStore →
        ∃ other ∈ (calls ++ [call]).filterMap LocalCall.bodyPair,
          key = bodyKeyOf texts other := by
      intro held
      rcases ih held with ⟨other, published, same⟩
      rw [filterMap_append]
      exact ⟨other, mem_append_left _ published, same⟩
    rw [runCalls_append, bodyStore_applyCall] at among
    cases stores : call.stored config with
    | none =>
      rw [stores] at among
      exact earlier among
    | some stored =>
      rw [stores] at among
      rcases keys_insertBody among with new | held
      · have last : stored.1 ∈ [call].filterMap LocalCall.bodyPair :=
          mem_filterMap.mpr ⟨call, mem_singleton_self call, bodyPair_of_stored stores⟩
        rw [filterMap_append]
        exact ⟨stored.1, mem_append_right _ last, new⟩
      · exact earlier held

theorem length_bodyStore_le :
    (runCalls texts root config calls).bodyStore.entries.length ≤
      (calls.filterMap LocalCall.bodyPair).toFinset.card := by
  have within : (runCalls texts root config calls).bodyStore.keys.toFinset ⊆
      (calls.filterMap LocalCall.bodyPair).toFinset.image (bodyKeyOf texts) := by
    intro key among
    rcases keys_runCalls (mem_toFinset.mp among) with ⟨other, published, same⟩
    exact Finset.mem_image.mpr ⟨other, mem_toFinset.mpr published, same.symm⟩
  calc (runCalls texts root config calls).bodyStore.entries.length
      = (runCalls texts root config calls).bodyStore.keys.length := (length_map _).symm
    _ = (runCalls texts root config calls).bodyStore.keys.toFinset.card :=
        (toFinset_card_of_nodup (AList.keys_nodup _)).symm
    _ ≤ ((calls.filterMap LocalCall.bodyPair).toFinset.image (bodyKeyOf texts)).card :=
        Finset.card_le_card within
    _ ≤ (calls.filterMap LocalCall.bodyPair).toFinset.card := Finset.card_image_le

theorem few_append {call : LocalCall} (few : FewBodies config (calls ++ [call])) :
    FewBodies config calls := by
  unfold FewBodies at few ⊢
  rw [filterMap_append, toFinset_append] at few
  exact Nat.lt_of_le_of_lt (Finset.card_le_card Finset.subset_union_left) few

theorem apart_append {call : LocalCall} (apart : KeysApart texts (calls ++ [call]) pair) :
    KeysApart texts calls pair := by
  intro other published
  apply apart other
  rw [filterMap_append]
  exact mem_append_left _ published

/-- The body under the key that a pair is asked for with is the last one stored for the pair. -/
theorem lookup_runCalls (few : FewBodies config calls) (apart : KeysApart texts calls pair) :
    (runCalls texts root config calls).bodyStore.lookup
        (prefixHashHex texts pair.1, uriOf pair.2.components) =
      if texts.display pair.2 = uriOf pair.2.components then
        Run.latest (LocalCall.bodyFor config pair) calls
      else none := by
  induction calls using List.reverseRecOn with
  | nil => exact (ite_self none).symm
  | append_singleton calls call ih =>
    have before := ih (few_append few) (apart_append apart)
    rw [runCalls_append, bodyStore_applyCall, Run.latest_append_singleton, bodyFor_eq]
    cases stores : call.stored config with
    | none => exact before
    | some stored =>
      have room : (runCalls texts root config calls).bodyStore.entries.length <
          max config.maxBodyEntries 1 := by
        have bounded := @length_bodyStore_le texts root config calls
        have small := few_append few
        unfold FewBodies at small
        omega
      have published : stored.1 ∈ (calls ++ [call]).filterMap LocalCall.bodyPair :=
        mem_filterMap.mpr ⟨call, by simp, bodyPair_of_stored stores⟩
      rw [elim_some, bind_some, insertBody_of_room room, HashMap.lookup_insert_eq,
        before]
      by_cases same : stored.1 = pair
      · rw [if_pos same, some_or, same]
        by_cases text : texts.display pair.2 = uriOf pair.2.components
        · have key : (prefixHashHex texts pair.1, uriOf pair.2.components) =
              bodyKeyOf texts pair := congrArg (Prod.mk _) text.symm
          rw [if_pos key, if_pos text]
        · rw [if_neg text, if_neg fun keys => text (congrArg Prod.snd keys).symm, if_neg text]
      · rw [if_neg same, none_or, if_neg]
        intro keys
        exact same (apart stored.1 published (congrArg Prod.fst keys).symm
          (congrArg Prod.snd keys).symm)

/-! ### Interests for bodies -/

/-- The body that an Interest for a pair is answered with. -/
def served (texts : Texts) (config : ServiceDiscoveryConfig) (calls : List LocalCall)
    (pair : Name × Name) : Option Bytes :=
  if Readable texts pair.2 then Run.latest (LocalCall.bodyFor config pair) calls else none

theorem bodyInterest_eq (few : FewBodies config calls) (apart : KeysApart texts calls pair)
    (ctx : Context) (timestampMs : Nat) (face : FaceId) :
    bodyInterest texts root peersPrefix config (runCalls texts root config calls) ctx pair
        timestampMs face =
      ((served texts config calls pair).map fun wrapped => .sendOn face
        (.data (signedData config (bodyNameOf texts root pair timestampMs) wrapped))).toList := by
  have named := @bodyName_under texts root ⟨pair.1, pair.2, 0, 0, 0⟩ timestampMs
  have key := @bodyKey_bodyName texts root ⟨pair.1, pair.2, 0, 0, 0⟩ timestampMs
  have noKey := @bodyKey_unnamed texts root ⟨pair.1, pair.2, 0, 0, 0⟩ timestampMs
  change hasPrefix (bodyNameOf texts root pair timestampMs) _ = true at named
  change _ → bodyKey root (bodyNameOf texts root pair timestampMs) = _ at key noKey
  unfold bodyInterest onInboundPacket handleInterest handleBodyInterest served
  dsimp only
  rw [if_pos named]
  by_cases nodeName : pair.2.components = []
  · rw [noKey nodeName, if_neg fun readable => readable.1 nodeName]
    rfl
  · rw [key nodeName, bind_some, lookup_runCalls few apart]
    by_cases text : texts.display pair.2 = uriOf pair.2.components
    · rw [if_pos text, if_pos ⟨nodeName, text⟩]
      cases Run.latest (LocalCall.bodyFor config pair) calls <;> rfl
    · rw [if_neg text, if_neg fun readable => text readable.2]
      rfl

theorem livesWithRecord_iff_served (few : FewBodies config calls)
    (apart : KeysApart texts calls pair) :
    LivesWithRecord texts root peersPrefix config calls pair ↔
      served texts config calls pair =
        (Run.latest (Option.guard (LocalCall.concerns pair)) calls).bind
          (LocalCall.bodyFor config pair) := by
  constructor
  · intro lives
    cases kept : (Run.latest (Option.guard (LocalCall.concerns pair)) calls).bind
        (LocalCall.bodyFor config pair) with
    | none =>
      cases serves : served texts config calls pair with
      | none => rfl
      | some wrapped =>
        have answered := lives.answered ⟨0, []⟩ 0 ⟨0⟩
        rw [bodyInterest_eq few apart, serves] at answered
        rcases answered.mp (cons_ne_nil _ _) with ⟨standing, isStanding⟩
        rw [standing_iff, kept] at isStanding
        cases isStanding
    | some wrapped =>
      have body := lives.body ⟨0, []⟩ 0 ⟨0⟩ wrapped ((standing_iff wrapped).mpr kept)
      rw [bodyInterest_eq few apart] at body
      cases serves : served texts config calls pair with
      | none =>
        rw [serves] at body
        cases body
      | some other =>
        rw [serves] at body
        have same := congrArg (fun effects => (answered effects).map RawData.content) body
        exact (List.cons.inj same).1
  · intro same
    constructor
    · intro ctx timestampMs face
      rw [bodyInterest_eq few apart, same]
      simp only [standing_iff]
      cases (Run.latest (Option.guard (LocalCall.concerns pair)) calls).bind
          (LocalCall.bodyFor config pair) <;> simp
    · intro ctx timestampMs face wrapped standing
      rw [bodyInterest_eq few apart, same, (standing_iff wrapped).mp standing]
      rfl

/-- A body is served while its record is held exactly where the last call that concerns the pair
stores one, or none was stored before. -/
theorem body_lives_with_record_iff (few : FewBodies config calls)
    (apart : KeysApart texts calls pair) :
    LivesWithRecord texts root peersPrefix config calls pair ↔ InStep texts config calls pair := by
  have concerned : ∀ call wrapped, LocalCall.bodyFor config pair call = some wrapped →
      call.concerns pair = true :=
    fun call wrapped stores => concerns_of_publishesFor (publishesFor_of_bodyFor stores)
  rw [livesWithRecord_iff_served few apart]
  unfold InStep served
  cases found : Run.latest (Option.guard (LocalCall.concerns pair)) calls with
  | none =>
    have unread : Run.latest (LocalCall.bodyFor config pair) calls = none := by
      rw [Run.latest_eq_none] at found ⊢
      intro call among
      apply Option.eq_none_iff_forall_ne_some.mpr
      intro wrapped stores
      have unconcerned := Option.guard_eq_none_iff.mp (found call among)
      rw [concerned call wrapped stores] at unconcerned
      cases unconcerned
    rw [unread, ite_self]
    exact iff_of_true rfl (by intro last impossible; cases impossible)
  | some last =>
    rw [Option.bind_some]
    have only : (∀ other, some last = some other →
        if (other.bodyFor config pair).isSome then Readable texts pair.2
        else Readable texts pair.2 → ∀ call ∈ calls, call.bodyFor config pair = none) ↔
        if (last.bodyFor config pair).isSome then Readable texts pair.2
        else Readable texts pair.2 → ∀ call ∈ calls, call.bodyFor config pair = none := by
      constructor
      · exact fun all => all last rfl
      · rintro holds _ ⟨⟩
        exact holds
    rw [only]
    cases reads : last.bodyFor config pair with
    | none =>
      rw [← Run.latest_eq_none, Option.isSome_none, if_neg Bool.false_ne_true]
      by_cases readable : Readable texts pair.2
      · rw [if_pos readable, forall_prop_of_true readable]
      · rw [if_neg readable]
        exact iff_of_true rfl fun contrary => absurd contrary readable
    | some wrapped =>
      rw [Run.latest_of_kind concerned found reads, Option.isSome_some, if_pos rfl]
      by_cases readable : Readable texts pair.2
      · rw [if_pos readable]
        exact iff_of_true rfl readable
      · rw [if_neg readable]
        exact iff_of_false (by intro impossible; cases impossible) readable

end Lifetime

/-! ### A body that stays -/

namespace Example

def plainConfig : ServiceDiscoveryConfig :=
  defaultConfig (2 * ·) (fun body _ => some body) (fun body _ => some body) fun _ _ => []

/-- A service that is withdrawn and published again with a body. -/
def renewed : List LocalCall :=
  [.publishWithBody record [1] publishedAtMs, .withdraw record.announcedPrefix,
    .publishWithBody record [2] (publishedAtMs + 1), .onTick ⟨5, []⟩ 5]

def abandoned : List LocalCall :=
  [.publishWithBody record [1] publishedAtMs, .withdraw record.announcedPrefix]

theorem few_renewed : FewBodies plainConfig renewed := by decide

theorem few_abandoned : FewBodies plainConfig abandoned := by decide

theorem renewed_apart : KeysApart texts renewed record.pair := by
  intro other published _ _
  change other ∈ [record.pair, record.pair] at published
  simpa using published

theorem abandoned_apart : KeysApart texts abandoned record.pair := by
  intro other published _ _
  exact mem_singleton.mp published

theorem record_readable : Readable texts record.pair.2 := by decide +kernel

theorem renewed_lives :
    FewBodies plainConfig renewed ∧ KeysApart texts renewed record.pair ∧
      LivesWithRecord texts sdRoot (.single 112) plainConfig renewed record.pair := by
  refine ⟨few_renewed, renewed_apart, ?_⟩
  apply (body_lives_with_record_iff few_renewed renewed_apart).mpr
  intro last found
  have is : Run.latest (Option.guard (LocalCall.concerns record.pair)) renewed =
      some (.publishWithBody record [2] (publishedAtMs + 1)) := rfl
  rw [is] at found
  cases found
  exact record_readable

/-- The record is withdrawn, and its body is served. -/
theorem body_outlives_record :
    FewBodies plainConfig abandoned ∧ KeysApart texts abandoned record.pair ∧
      ¬ LivesWithRecord texts sdRoot (.single 112) plainConfig abandoned record.pair := by
  refine ⟨few_abandoned, abandoned_apart, ?_⟩
  intro lives
  have same := (livesWithRecord_iff_served few_abandoned abandoned_apart).mp lives
  unfold served at same
  rw [if_pos record_readable] at same
  cases same

end Example

end ServiceDiscovery

end NdnExt.Discovery
