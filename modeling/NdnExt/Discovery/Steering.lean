import NdnExt.Discovery.Calls
import NdnExt.Lib.Run

/-! Two runs of service discovery that differ in packets without an authentic signature. -/

namespace NdnExt.Discovery

open NdnExt.Lib NdnExt.Lib.Run

/-- A call of both runs, or an extra one of the second. -/
structure TwinCall where
  extra : Bool
  call : SdCall

/-- The calls of the first run. -/
def commonCalls (calls : List TwinCall) : List SdCall :=
  (calls.filter fun c => !c.extra).map TwinCall.call

def allCalls (calls : List TwinCall) : List SdCall := calls.map TwinCall.call

/-- The states of the two runs; `planted` are the records that extra packets brought the second one
since it last forgot their prefix and node. -/
structure Twin where
  first : ServiceDiscovery
  second : ServiceDiscovery
  planted : List ServiceRecord

namespace ServiceDiscovery

section Runs

variable (texts : Texts) (root peersPrefix : Name) (config : ServiceDiscoveryConfig)

def brought (sd : ServiceDiscovery) (c : SdCall) : Option ServiceRecord :=
  c.data.bind fun packet => taken texts root config sd packet.1 packet.2

/-- An Interest, or a Data that the verifier does not call authentic. -/
def unauthentic : SdCall → Bool
  | .inbound _ (.interest _) _ => true
  | .inbound _ (.data data) _ => !(verifyData config data).1
  | _ => false

def Twin.start : Twin := ⟨new, new, []⟩

def Twin.step (twin : Twin) (c : TwinCall) : Twin :=
  if c.extra then
    ⟨twin.first, (call texts root peersPrefix config twin.second c.call).1,
      twin.planted ++ (brought texts root config twin.second c.call).toList⟩
  else
    ⟨(call texts root peersPrefix config twin.first c.call).1,
      (call texts root peersPrefix config twin.second c.call).1,
      twin.planted.filter fun r => keeps twin.second c.call r.pair⟩

/-- The tables are not full, and the first run refuses no authentic record by its rate limit. -/
def Calm (twin : Twin) (c : TwinCall) : Prop :=
  (Roomy config twin.first.peerRecords ∧ Roomy config twin.second.peerRecords) ∧
    (RoomyLimits config twin.first.rateLimits ∧ RoomyLimits config twin.second.rateLimits) ∧
      (c.extra = false → ∀ packet ∈ c.call.data, (verifyData config packet.2).1 = true →
        ∀ record ∈ filtered texts root config packet.2,
          admits texts config twin.first packet.1 packet.2 record = true)

/-- The rate limit takes a record of both runs alike in both. -/
def AdmitsAlike (twin : Twin) (packet : Context × RawData) (record : ServiceRecord) : Prop :=
  admits texts config twin.first packet.1 packet.2 record =
    admits texts config twin.second packet.1 packet.2 record

/-- No extra packet brought a version that makes a record stale that the first run takes for a
route. -/
def Unpoisoned (twin : Twin) (data : RawData) (record : ServiceRecord) : Prop :=
  mayPopulate config data record = true → stale twin.first.peerRecords record = false →
    ∀ planted ∈ twin.planted, planted.pair = record.pair →
      planted.version = 0 ∨ planted.version < record.version

def Undisturbed (twin : Twin) (c : TwinCall) : Prop :=
  c.extra = false → ∀ packet ∈ c.call.data, ∀ record ∈ filtered texts root config packet.2,
    AdmitsAlike texts config twin packet record ∧ Unpoisoned config twin packet.2 record

instance (twin : Twin) (c : TwinCall) : Decidable (Calm texts root config twin c) := by
  unfold Calm
  infer_instance

instance (twin : Twin) (c : TwinCall) : Decidable (Undisturbed texts root config twin c) := by
  unfold Undisturbed AdmitsAlike Unpoisoned
  infer_instance

end Runs

variable {texts : Texts} {root peersPrefix : Name} {config : ServiceDiscoveryConfig}

/-! ### One call -/

/-- The second run has the routes of the first one, and also holds what extra packets brought. -/
structure Alike (twin : Twin) : Prop where
  autoFib : twin.second.autoFib = twin.first.autoFib
  distinctFirst : Keyed.Distinct ServiceRecord.pair twin.first.peerRecords
  distinctSecond : Keyed.Distinct ServiceRecord.pair twin.second.peerRecords
  held : ∀ pair n, n < heldVersion twin.second.peerRecords pair ↔
    n < heldVersion twin.first.peerRecords pair ∨
      ∃ planted ∈ twin.planted, planted.pair = pair ∧ n < planted.version

theorem alike_start : Alike Twin.start := by
  refine ⟨rfl, List.nodup_nil, List.nodup_nil, ?_⟩
  intro pair n
  constructor
  · exact fun less => absurd less (Nat.not_lt_zero n)
  · rintro (less | ⟨_, among, _⟩)
    · exact absurd less (Nat.not_lt_zero n)
    · cases among

theorem routed_unauthentic {sd : ServiceDiscovery} {ctx : Context} {data : RawData}
    {record : ServiceRecord} {face : FaceId} (unsigned : (verifyData config data).1 = false) :
    routed config sd ctx data record face = (sd.autoFib, []) := by
  have no : mayPopulate config data record = false := by
    unfold mayPopulate
    dsimp only
    rw [unsigned, Bool.and_false, Bool.false_and]
  unfold routed
  rw [no, Bool.false_and, if_neg Bool.false_ne_true]

/-- An extra packet calls nothing, and only adds to what the second run holds. -/
theorem extra_step {twin : Twin} {c : SdCall} (alike : Alike twin)
    (roomy : Roomy config twin.second.peerRecords) (extra : unauthentic config c = true) :
    Alike (Twin.step texts root peersPrefix config twin ⟨true, c⟩) ∧
      fibCalls (call texts root peersPrefix config twin.second c).2 = [] := by
  cases c with
  | tick ctx now => cases extra
  | faceDown ctx face => cases extra
  | inbound ctx packet face =>
    cases packet with
    | interest name =>
      refine ⟨?_, fibCalls_interest _ _ _ _⟩
      have same : Twin.step texts root peersPrefix config twin
          ⟨true, .inbound ctx (.interest name) face⟩ = twin :=
        congrArg (Twin.mk twin.first twin.second) (List.append_nil _)
      rw [same]
      exact alike
    | data data =>
      have unsigned : (verifyData config data).1 = false := Bool.not_eq_true' _ ▸ extra
      unfold Twin.step brought
      rw [if_pos rfl]
      dsimp only [SdCall.data, Option.bind_some]
      cases found : taken texts root config twin.second ctx data with
      | none =>
        have heard := @heard_nothing texts root peersPrefix config _ _ _ found face
        refine ⟨⟨heard.autoFib.trans alike.autoFib, alike.distinctFirst, ?_, ?_⟩, heard.calls⟩
        · rw [heard.peerRecords]
          exact alike.distinctSecond
        · intro pair n
          rw [heard.peerRecords, Option.toList_none, List.append_nil]
          exact alike.held pair n
      | some record =>
        have heard := @heard_record texts root peersPrefix config _ _ _ _ found face
        rw [routed_unauthentic unsigned] at heard
        refine ⟨⟨heard.autoFib.trans alike.autoFib, alike.distinctFirst, ?_, ?_⟩, heard.calls⟩
        · rw [heard.peerRecords]
          exact putTaken_distinct roomy alike.distinctSecond
        · intro pair n
          rw [heard.peerRecords, heldVersion_putTaken roomy alike.distinctSecond,
            alike.held pair n, or_assoc]
          refine or_congr_right ?_
          simp only [Option.toList_some, List.mem_append, List.mem_singleton, or_and_right,
            exists_or, exists_eq_left]

theorem stale_iff_lt {records : List ServiceRecord} {record : ServiceRecord} :
    stale records record = true ↔ record.version - 1 < heldVersion records record.pair := by
  rw [stale_iff]
  omega

/-- A record that the first run takes for a route is stale in both runs or in none. -/
theorem stale_same {twin : Twin} {data : RawData} {record : ServiceRecord} (alike : Alike twin)
    (unpoisoned : Unpoisoned config twin data record) (populates : mayPopulate config data record) :
    stale twin.second.peerRecords record = stale twin.first.peerRecords record := by
  cases first : stale twin.first.peerRecords record with
  | true =>
    rw [stale_iff_lt, alike.held]
    exact .inl (stale_iff_lt.mp first)
  | false =>
    apply Bool.eq_false_iff.mpr
    intro second
    rw [stale_iff_lt, alike.held] at second
    rcases second with held | ⟨planted, among, same, newer⟩
    · rw [stale_iff_lt.mpr held] at first
      cases first
    · have older := unpoisoned populates first planted among same
      omega

theorem routed_same {twin : Twin} {ctx : Context} {data : RawData} {record : ServiceRecord}
    (alike : Alike twin) (unpoisoned : Unpoisoned config twin data record) (face : FaceId) :
    routed config twin.second ctx data record face = routed config twin.first ctx data record face := by
  unfold routed
  cases populates : mayPopulate config data record with
  | false =>
    rw [Bool.false_and, Bool.false_and, if_neg Bool.false_ne_true, if_neg Bool.false_ne_true,
      alike.autoFib]
  | true => rw [stale_same alike unpoisoned populates, alike.autoFib]

theorem keeps_same {left right : ServiceDiscovery} (same : left.autoFib = right.autoFib)
    (c : SdCall) : keeps left c = keeps right c := by
  cases c with
  | inbound ctx packet face => rfl
  | tick ctx now =>
    funext pair
    unfold keeps
    rw [same]
  | faceDown ctx face => rfl

/-- What is planted is forgotten with the records. -/
theorem held_kept {twin : Twin} (alike : Alike twin) (c : SdCall) (pair : Name × Name) (n : Nat) :
    n < heldVersion (twin.second.peerRecords.filter fun r => keeps twin.second c r.pair) pair ↔
      n < heldVersion (twin.first.peerRecords.filter fun r => keeps twin.first c r.pair) pair ∨
        ∃ planted ∈ twin.planted.filter fun r => keeps twin.second c r.pair,
          planted.pair = pair ∧ n < planted.version := by
  rw [heldVersion_filter, heldVersion_filter, keeps_same alike.autoFib]
  cases stays : keeps twin.first c pair with
  | true =>
    rw [if_pos rfl, if_pos rfl, alike.held]
    refine or_congr_right (exists_congr fun planted => ?_)
    rw [List.mem_filter, and_assoc]
    refine and_congr_right fun _ => ?_
    constructor
    · rintro ⟨rfl, newer⟩
      exact ⟨stays, rfl, newer⟩
    · exact And.right
  | false =>
    rw [if_neg Bool.false_ne_true, if_neg Bool.false_ne_true]
    constructor
    · exact fun less => absurd less (Nat.not_lt_zero n)
    · rintro (less | ⟨planted, among, rfl, _⟩)
      · exact absurd less (Nat.not_lt_zero n)
      · rw [List.mem_filter, stays] at among
        cases among.2

/-- Neither run takes a record from the packet, or both take it. -/
theorem taken_same {twin : Twin} {ctx : Context} {data : RawData} {face : FaceId}
    (undisturbed : Undisturbed texts root config twin ⟨false, .inbound ctx (.data data) face⟩) :
    (taken texts root config twin.first ctx data = none ∧
        taken texts root config twin.second ctx data = none) ∨
      ∃ record, taken texts root config twin.first ctx data = some record ∧
        taken texts root config twin.second ctx data = some record ∧
          Unpoisoned config twin data record := by
  unfold taken
  cases found : filtered texts root config data with
  | none => exact .inl ⟨rfl, rfl⟩
  | some record =>
    rcases undisturbed rfl (ctx, data) rfl record found with ⟨alike, unpoisoned⟩
    have admitted : admits texts config twin.first ctx data record =
      admits texts config twin.second ctx data record := alike
    rw [Option.filter_some, Option.filter_some, ← admitted]
    cases admits texts config twin.first ctx data record with
    | false => exact .inl ⟨rfl, rfl⟩
    | true => exact .inr ⟨record, rfl, rfl, unpoisoned⟩

/-- A call of both runs makes the same calls to the FIB in both. -/
theorem common_step {twin : Twin} {c : SdCall} (alike : Alike twin)
    (roomyFirst : Roomy config twin.first.peerRecords)
    (roomySecond : Roomy config twin.second.peerRecords)
    (undisturbed : Undisturbed texts root config twin ⟨false, c⟩) :
    Alike (Twin.step texts root peersPrefix config twin ⟨false, c⟩) ∧
      fibCalls (call texts root peersPrefix config twin.first c).2 =
        fibCalls (call texts root peersPrefix config twin.second c).2 := by
  unfold Twin.step
  rw [if_neg Bool.false_ne_true]
  cases c with
  | tick ctx now =>
    refine ⟨⟨?_, ?_, ?_, ?_⟩, ?_⟩
    · exact congrArg (List.filter fun e => now < e.expiresAt) alike.autoFib
    · exact Keyed.distinct_filter _ alike.distinctFirst
    · exact Keyed.distinct_filter _ alike.distinctSecond
    · exact held_kept alike (.tick ctx now)
    · refine (fibCalls_tick _ _ _).trans ((fibCalls_tick _ _ _).trans ?_).symm
      rw [alike.autoFib]
  | faceDown ctx face =>
    refine ⟨⟨?_, ?_, ?_, ?_⟩, ?_⟩
    · exact congrArg (List.filter fun e => e.faceId ≠ face) alike.autoFib
    · exact Keyed.distinct_filter _ alike.distinctFirst
    · exact Keyed.distinct_filter _ alike.distinctSecond
    · exact held_kept alike (.faceDown ctx face)
    · refine (fibCalls_faceDown _ _ _).trans ((fibCalls_faceDown _ _ _).trans ?_).symm
      rw [alike.autoFib]
  | inbound ctx packet face =>
    have all : (twin.planted.filter fun r => keeps twin.second (.inbound ctx packet face) r.pair) =
        twin.planted := List.filter_eq_self.mpr fun _ _ => rfl
    rw [all]
    cases packet with
    | interest name =>
      refine ⟨?_, ?_⟩
      · exact alike
      · exact (fibCalls_interest _ _ _ _).trans (fibCalls_interest _ _ _ _).symm
    | data data =>
      rcases taken_same undisturbed with ⟨noneFirst, noneSecond⟩ |
        ⟨record, takenFirst, takenSecond, unpoisoned⟩
      · have first := @heard_nothing texts root peersPrefix config _ _ _ noneFirst face
        have second := @heard_nothing texts root peersPrefix config _ _ _ noneSecond face
        refine ⟨⟨?_, ?_, ?_, ?_⟩, first.calls.trans second.calls.symm⟩
        · rw [first.autoFib, second.autoFib, alike.autoFib]
        · rw [first.peerRecords]
          exact alike.distinctFirst
        · rw [second.peerRecords]
          exact alike.distinctSecond
        · rw [first.peerRecords, second.peerRecords]
          exact alike.held
      · have first := @heard_record texts root peersPrefix config _ _ _ _ takenFirst face
        have second := @heard_record texts root peersPrefix config _ _ _ _ takenSecond face
        rw [routed_same alike unpoisoned] at second
        refine ⟨⟨?_, ?_, ?_, ?_⟩, first.calls.trans second.calls.symm⟩
        · rw [first.autoFib, second.autoFib]
        · rw [first.peerRecords]
          exact putTaken_distinct roomyFirst alike.distinctFirst
        · rw [second.peerRecords]
          exact putTaken_distinct roomySecond alike.distinctSecond
        · intro pair n
          rw [first.peerRecords, second.peerRecords,
            heldVersion_putTaken roomyFirst alike.distinctFirst,
            heldVersion_putTaken roomySecond alike.distinctSecond, alike.held, or_right_comm]

/-! ### Runs -/

/-- Packets without an authentic signature do not steer the routes of an undisturbed run. -/
theorem runFib_same (calls : List TwinCall)
    (extras : ∀ c ∈ calls, c.extra = true → unauthentic config c.call = true)
    (calm : Throughout (Twin.step texts root peersPrefix config) Twin.start calls
      (Calm texts root config))
    (undisturbed : Throughout (Twin.step texts root peersPrefix config) Twin.start calls
      (Undisturbed texts root config)) :
    runFib texts root peersPrefix config new (allCalls calls) =
      runFib texts root peersPrefix config new (commonCalls calls) := by
  suffices ∀ twin, Alike twin →
      Throughout (Twin.step texts root peersPrefix config) twin calls (Calm texts root config) →
      Throughout (Twin.step texts root peersPrefix config) twin calls
        (Undisturbed texts root config) →
      runFib texts root peersPrefix config twin.second (allCalls calls) =
        runFib texts root peersPrefix config twin.first (commonCalls calls) from
    this Twin.start alike_start calm undisturbed
  clear calm undisturbed
  induction calls with
  | nil => exact fun _ _ _ _ => rfl
  | cons c rest ih =>
    intro twin alike calm undisturbed
    rw [throughout_cons] at calm undisturbed
    rw [List.forall_mem_cons] at extras
    rcases calm with ⟨⟨⟨roomyFirst, roomySecond⟩, _⟩, calm⟩
    rcases undisturbed with ⟨now, undisturbed⟩
    rcases c with ⟨extra, c⟩
    cases extra with
    | true =>
      rcases @extra_step texts root peersPrefix config twin c alike roomySecond (extras.1 rfl)
        with ⟨next, calls⟩
      have same := ih extras.2 _ next calm undisturbed
      change fibCalls (call texts root peersPrefix config twin.second c).2 ++
        runFib texts root peersPrefix config _ (allCalls rest) = _
      rw [calls, List.nil_append]
      exact same
    | false =>
      rcases @common_step texts root peersPrefix config twin c alike roomyFirst roomySecond now
        with ⟨next, calls⟩
      have same := ih extras.2 _ next calm undisturbed
      exact congrArg₂ (· ++ ·) calls.symm same

/-! ### A planted version -/

namespace Steered

open Sample

def packet (version : Nat) (signature : Bytes) : SdCall :=
  .inbound ⟨0, []⟩ (.data (Sample.data version signature)) ⟨1⟩

/-- An extra record without a signature comes before the signed one of version 5. -/
def calls (planted : Nat) : List TwinCall := [⟨true, packet planted []⟩, ⟨false, packet 5 [1]⟩]

/-- An older planted record changes nothing. -/
theorem older_planted :
    runFib letters sdRoot (.single 112) signedOnly new (allCalls (calls 4)) =
      runFib letters sdRoot (.single 112) signedOnly new (commonCalls (calls 4)) :=
  runFib_same (calls 4) (by decide +kernel) (by decide +kernel) (by decide +kernel)

/-- A newer one makes the signed record stale: the second run installs no route. -/
theorem newer_planted :
    (∀ c ∈ calls 6, c.extra = true → unauthentic signedOnly c.call = true) ∧
      Throughout (Twin.step letters sdRoot (.single 112) signedOnly) Twin.start (calls 6)
        (Calm letters sdRoot signedOnly) ∧
      runFib letters sdRoot (.single 112) signedOnly new (allCalls (calls 6)) ≠
        runFib letters sdRoot (.single 112) signedOnly new (commonCalls (calls 6)) := by
  decide +kernel

end Steered

end ServiceDiscovery

end NdnExt.Discovery
