import NdnExt.Discovery.ServiceDiscovery
import NdnExt.Lib.Keyed

/-! What each call to service discovery does to the held records and the FIB. -/

namespace NdnExt.Discovery

open NdnExt.Lib List ServiceRecord

inductive SdCall where
  | inbound (ctx : Context) (packet : Packet) (face : FaceId)
  | tick (ctx : Context) (now : Nanos)
  | faceDown (ctx : Context) (face : FaceId)

def SdCall.data : SdCall → Option (Context × RawData)
  | .inbound ctx (.data data) _ => some (ctx, data)
  | _ => none

def Effect.isFibCall : Effect → Bool
  | .sendOn _ _ => false
  | .addFibEntry _ _ _ => true
  | .removeFibEntry _ _ => true

/-- The `add_fib_entry` and `remove_fib_entry` calls. -/
def fibCalls (effects : List Effect) : List Effect := effects.filter Effect.isFibCall

/-- What a record is held under. -/
def ServiceRecord.pair (record : ServiceRecord) : Name × Name :=
  (record.announcedPrefix, record.nodeName)

namespace ServiceDiscovery

variable (texts : Texts) (root peersPrefix : Name) (config : ServiceDiscoveryConfig)

def call (sd : ServiceDiscovery) : SdCall → ServiceDiscovery × List Effect
  | .inbound ctx packet face => onInboundPacket texts root peersPrefix config sd ctx packet face
  | .tick ctx now => onTick root config sd ctx now
  | .faceDown ctx face => onFaceDown sd ctx face

/-- The calls to the FIB in a run. -/
def runFib : ServiceDiscovery → List SdCall → List Effect
  | _, [] => []
  | sd, c :: rest =>
    fibCalls (call texts root peersPrefix config sd c).2 ++
      runFib (call texts root peersPrefix config sd c).1 rest

/-- The record in a packet, where the prefix filter lets it through. -/
def filtered (data : RawData) : Option ServiceRecord :=
  (recordOf texts root data).filter (passesFilter config)

def admits (sd : ServiceDiscovery) (ctx : Context) (data : RawData) (record : ServiceRecord) :
    Bool :=
  (checkRateLimit texts config sd.rateLimits (rateKey config data record) ctx.now).2

/-- The record in a packet, where the rate limit lets it through too. -/
def taken (sd : ServiceDiscovery) (ctx : Context) (data : RawData) : Option ServiceRecord :=
  (filtered texts root config data).filter (admits texts config sd ctx data)

/-- The version that is held for a prefix and a node. -/
def heldVersion (records : List ServiceRecord) (pair : Name × Name) : Nat :=
  ((Keyed.entry ServiceRecord.pair records pair).map ServiceRecord.version).getD 0

def stale (records : List ServiceRecord) (record : ServiceRecord) : Bool :=
  heldVersion records record.pair ≠ 0 && record.version ≤ heldVersion records record.pair

/-- A record that has come is held at once, else the held one is newer. -/
def putTaken (records : List ServiceRecord) (record : ServiceRecord) : List ServiceRecord :=
  (putPeer config records record).getD records

/-- The routes after a record that is taken, and the calls for them. -/
def routed (sd : ServiceDiscovery) (ctx : Context) (data : RawData) (record : ServiceRecord)
    (face : FaceId) : List AutoFibEntry × List Effect :=
  if mayPopulate config data record && !stale sd.peerRecords record then
    autoPopulateFib config sd.autoFib ctx record face
  else (sd.autoFib, [])

variable {texts root peersPrefix config}

/-! ### Packets -/

theorem fibCalls_sends {A : Type} (items : List A) (face : A → FaceId) (packet : A → Packet) :
    fibCalls (items.map fun item => .sendOn (face item) (packet item)) = [] := by
  unfold fibCalls
  rw [filter_map, map_eq_nil_iff, filter_eq_nil_iff]
  exact fun item _ => Bool.false_ne_true

theorem fibCalls_append (effects more : List Effect) :
    fibCalls (effects ++ more) = fibCalls effects ++ fibCalls more :=
  filter_append _ _

theorem fibCalls_interest (sd : ServiceDiscovery) (ctx : Context) (name : Name) (face : FaceId) :
    fibCalls (handleInterest texts root peersPrefix config sd ctx name face) = [] := by
  unfold handleInterest
  split
  · unfold handleBodyInterest
    split <;> rfl
  · split
    · exact fibCalls_sends _ _ _
    · split
      · unfold handlePeersInterest
        dsimp only
        split
        · rfl
        · split <;> rfl
      · rfl

theorem fibCalls_relay (ctx : Context) (data : RawData) (incoming : FaceId) :
    fibCalls (relay config ctx data incoming) = [] := by
  unfold relay
  split
  · exact fibCalls_sends _ _ _
  · rfl

theorem handleBodyData_frame (sd : ServiceDiscovery) (name : Name) (content : Option Bytes) :
    (handleBodyData texts root config sd name content).peerRecords = sd.peerRecords ∧
      (handleBodyData texts root config sd name content).autoFib = sd.autoFib ∧
        (handleBodyData texts root config sd name content).lastBrowse = sd.lastBrowse := by
  unfold handleBodyData
  dsimp only
  split <;> exact ⟨rfl, rfl, rfl⟩

/-- What a Data packet does to the held records and to the FIB. -/
structure Heard (sd after : ServiceDiscovery) (calls : List Effect) (records : List ServiceRecord)
    (fib : List AutoFibEntry) (added : List Effect) : Prop where
  peerRecords : after.peerRecords = records
  autoFib : after.autoFib = fib
  lastBrowse : after.lastBrowse = sd.lastBrowse
  calls : fibCalls calls = added

theorem handleSdData_record {sd : ServiceDiscovery} {ctx : Context} {data : RawData}
    {face : FaceId} {record : ServiceRecord}
    (found : filtered texts root config data = some record) :
    handleSdData texts root config sd ctx data face =
      handleRecord texts config sd ctx data record face := by
  rcases Option.filter_eq_some_iff.mp found with ⟨read, passes⟩
  have services : hasPrefix data.name (sdServicesUnder root) = true := by
    by_contra other
    unfold recordOf at read
    rw [if_neg other] at read
    cases read
  unfold handleSdData
  rw [if_neg (by rw [not_service_info services]; exact Bool.false_ne_true), read]
  exact if_pos passes

/-- A packet without a record that is taken changes no held record and no route. -/
theorem heard_nothing {sd : ServiceDiscovery} {ctx : Context} {data : RawData}
    (nothing : taken texts root config sd ctx data = none) (face : FaceId) :
    Heard sd (call texts root peersPrefix config sd (.inbound ctx (.data data) face)).1
      (call texts root peersPrefix config sd (.inbound ctx (.data data) face)).2
      sd.peerRecords sd.autoFib [] := by
  change Heard sd (handleSdData texts root config sd ctx data face).1
    (handleSdData texts root config sd ctx data face).2 sd.peerRecords sd.autoFib []
  cases found : filtered texts root config data with
  | none =>
    unfold handleSdData
    split
    · split
      · exact ⟨rfl, rfl, rfl, rfl⟩
      · rcases handleBodyData_frame sd data.name data.content with ⟨records, fib, last⟩
        exact ⟨records, fib, last, rfl⟩
    · split
      · exact ⟨rfl, rfl, rfl, rfl⟩
      · next record read =>
        rw [filtered, read, Option.filter_eq_none_iff] at found
        rw [if_neg (found record rfl)]
        exact ⟨rfl, rfl, rfl, rfl⟩
  | some record =>
    rw [taken, found, Option.filter_eq_none_iff] at nothing
    have refused := nothing record rfl
    rw [Bool.not_eq_true] at refused
    rw [handleSdData_record found]
    unfold handleRecord
    dsimp only
    rw [show (checkRateLimit texts config sd.rateLimits (rateKey config data record) ctx.now).2 =
      false from refused]
    exact ⟨rfl, rfl, rfl, rfl⟩

/-! ### Held records -/

section Held

variable {records : List ServiceRecord} {record : ServiceRecord}

theorem samePair_iff {left right : ServiceRecord} :
    samePair left right = true ↔ left.pair = right.pair := by
  unfold samePair pair
  simp only [Bool.and_eq_true, decide_eq_true_eq, Prod.mk.injEq]

theorem findIdx?_samePair (records : List ServiceRecord) (record : ServiceRecord) :
    (records.findIdx? fun r => samePair r record) =
      Keyed.position pair records record.pair := by
  congr 1
  funext r
  exact Bool.eq_iff_iff.mpr (samePair_iff.trans decide_eq_true_iff.symm)

theorem stale_iff : stale records record = true ↔
    heldVersion records record.pair ≠ 0 ∧
      record.version ≤ heldVersion records record.pair := by
  unfold stale
  rw [Bool.and_eq_true, decide_eq_true_eq, decide_eq_true_eq]

/-- A record is refused where one that is not older is held. -/
theorem putPeer_isNone : (putPeer config records record).isNone = stale records record := by
  unfold putPeer stale heldVersion
  rw [findIdx?_samePair]
  cases position : Keyed.position pair records record.pair with
  | none =>
    rw [Keyed.entry_of_no_position position]
    rfl
  | some i =>
    rcases Keyed.entry_of_position position with ⟨held, stands, entry⟩
    dsimp only
    rw [stands, entry, Option.any_some, Option.map_some, Option.getD_some]
    cases held.version ≠ 0 && record.version ≤ held.version <;> rfl

/-- The table of records has room for one more. -/
def Roomy (config : ServiceDiscoveryConfig) (records : List ServiceRecord) : Prop :=
  records.length < max config.maxRecordsPerScope 1

instance : Decidable (Roomy config records) := Nat.decLt _ _

def RoomyLimits (config : ServiceDiscoveryConfig)
    (limits : HashMap (List Char) ProducerRateLimit) : Prop :=
  limits.entries.length < max config.maxRateLimitEntries 1

instance (limits : HashMap (List Char) ProducerRateLimit) : Decidable (RoomyLimits config limits) :=
  Nat.decLt _ _

theorem updated_put (roomy : Roomy config records)
    (distinct : Keyed.Distinct pair records) {after : List ServiceRecord}
    (put : putPeer config records record = some after) :
    Keyed.Updated pair records after record.pair (some record) := by
  unfold putPeer at put
  rw [findIdx?_samePair] at put
  cases position : Keyed.position pair records record.pair with
  | none =>
    have all : records.length + 1 - max config.maxRecordsPerScope 1 = 0 :=
      Nat.sub_eq_zero_of_le roomy
    rw [position] at put
    dsimp only at put
    rw [all, drop_zero, Option.some.injEq] at put
    rw [← put]
    exact Keyed.updated_append distinct (Keyed.entry_of_no_position position)
  | some i =>
    rw [position] at put
    dsimp only at put
    split at put
    · cases put
    · cases put
      exact Keyed.updated_set distinct position rfl

theorem putTaken_distinct (roomy : Roomy config records)
    (distinct : Keyed.Distinct pair records) :
    Keyed.Distinct pair (putTaken config records record) := by
  unfold putTaken
  cases put : putPeer config records record with
  | none => exact distinct
  | some after => exact (updated_put roomy distinct put).distinct

/-- A record that is taken raises the version that is held. -/
theorem heldVersion_putTaken (roomy : Roomy config records)
    (distinct : Keyed.Distinct pair records) (pair : Name × Name) (n : Nat) :
    n < heldVersion (putTaken config records record) pair ↔
      n < heldVersion records pair ∨ record.pair = pair ∧ n < record.version := by
  have known : (putPeer config records record).isNone = true ↔ _ :=
    (Bool.eq_iff_iff.mp putPeer_isNone).trans stale_iff
  unfold putTaken
  cases put : putPeer config records record with
  | none =>
    have refused := known.mp (by rw [put]; rfl)
    rw [Option.getD_none]
    refine ⟨.inl, ?_⟩
    rintro (held | ⟨rfl, newer⟩)
    · exact held
    · omega
  | some after =>
    have newer : ¬ _ := fun refused => by
      have isNone := known.mpr refused
      rw [put] at isNone
      cases isNone
    have lookup := (updated_put roomy distinct put).lookup pair
    rw [Option.getD_some]
    by_cases same : pair = record.pair
    · subst same
      have held : heldVersion after record.pair = record.version := by
        unfold heldVersion
        rw [lookup, if_pos rfl]
        rfl
      rw [held]
      constructor
      · exact fun less => .inr ⟨rfl, less⟩
      · rintro (less | ⟨_, less⟩)
        · omega
        · exact less
    · have held : heldVersion after pair = heldVersion records pair := by
        unfold heldVersion
        rw [lookup, if_neg same]
      rw [held]
      constructor
      · exact .inl
      · rintro (less | ⟨other, _⟩)
        · exact less
        · exact absurd other.symm same

theorem heldVersion_filter (keep : Name × Name → Bool) (records : List ServiceRecord)
    (pair : Name × Name) :
    heldVersion (records.filter fun r => keep r.pair) pair =
      if keep pair then heldVersion records pair else 0 := by
  unfold heldVersion
  rw [Keyed.entry_filter_key]
  split <;> rfl

end Held

theorem heard_record {sd : ServiceDiscovery} {ctx : Context} {data : RawData}
    {record : ServiceRecord} (found : taken texts root config sd ctx data = some record)
    (face : FaceId) :
    Heard sd (call texts root peersPrefix config sd (.inbound ctx (.data data) face)).1
      (call texts root peersPrefix config sd (.inbound ctx (.data data) face)).2
      (putTaken config sd.peerRecords record) (routed config sd ctx data record face).1
      (routed config sd ctx data record face).2 := by
  change Heard sd (handleSdData texts root config sd ctx data face).1
    (handleSdData texts root config sd ctx data face).2 (putTaken config sd.peerRecords record)
    (routed config sd ctx data record face).1 (routed config sd ctx data record face).2
  rcases Option.filter_eq_some_iff.mp found with ⟨read, admitted⟩
  have known : (putPeer config sd.peerRecords record).isNone = stale sd.peerRecords record :=
    putPeer_isNone
  rw [handleSdData_record read]
  unfold handleRecord routed putTaken
  dsimp only
  rw [show (checkRateLimit texts config sd.rateLimits (rateKey config data record) ctx.now).2 =
    true from admitted, ← known]
  cases put : putPeer config sd.peerRecords record with
  | none =>
    rw [Option.isNone_none, Bool.not_true, Bool.and_false]
    exact ⟨rfl, rfl, rfl, rfl⟩
  | some records =>
    rw [Option.isNone_some, Bool.not_false, Bool.and_true]
    cases mayPopulate config data record with
    | false => exact ⟨rfl, rfl, rfl, fibCalls_relay ctx data face⟩
    | true =>
      refine ⟨rfl, rfl, rfl, ?_⟩
      refine (fibCalls_append _ _).trans ?_
      rw [fibCalls_relay, append_nil]
      rfl

/-! ### Ticks and faces -/

theorem fibCalls_browse (periodicDue : Bool) (reachable : List NeighborEntry)
    (state : HashMap Name Unit × List Effect) :
    fibCalls (reachable.foldl (browseOne root periodicDue) state).2 = fibCalls state.2 := by
  induction reachable generalizing state with
  | nil => rfl
  | cons e rest ih =>
    rw [foldl_cons, ih]
    unfold browseOne
    rw [fibCalls_append]
    split
    · unfold browseInterest
      rw [fibCalls_sends, append_nil]
    · exact append_nil _

theorem fibCalls_tick (sd : ServiceDiscovery) (ctx : Context) (now : Nanos) :
    fibCalls (onTick root config sd ctx now).2 =
      (sd.autoFib.filter fun e => now ≥ e.expiresAt).map fun e =>
        .removeFibEntry e.front e.faceId := by
  unfold onTick
  refine (fibCalls_append _ _).trans ?_
  have removed : fibCalls (sd.expireAutoFib now).2 = (sd.expireAutoFib now).2 := by
    unfold fibCalls expireAutoFib
    rw [filter_eq_self]
    intro effect among
    rcases mem_map.mp among with ⟨e, _, rfl⟩
    rfl
  rw [removed]
  unfold browseNeighbors
  rw [fibCalls_browse]
  exact append_nil _

theorem fibCalls_faceDown (sd : ServiceDiscovery) (ctx : Context) (face : FaceId) :
    fibCalls (onFaceDown sd ctx face).2 =
      (sd.autoFib.filter fun e => e.faceId = face).map fun e =>
        .removeFibEntry e.front e.faceId := by
  unfold fibCalls onFaceDown
  rw [filter_eq_self]
  intro effect among
  rcases mem_map.mp among with ⟨e, _, rfl⟩
  rfl

/-- Whether a record that is held under a prefix and a node stays. -/
def keeps (sd : ServiceDiscovery) : SdCall → Name × Name → Bool
  | .inbound _ _ _, _ => true
  | .tick _ now, pair => !(sd.autoFib.filter fun e => now ≥ e.expiresAt).any fun e =>
    pair.1 = e.front && pair.2 = e.nodeName
  | .faceDown ctx face, pair =>
    !((ctx.neighbors.filter fun e => e.faces.contains face).map NeighborEntry.nodeName).contains
      pair.2

/-! ### A node with a key -/

namespace Sample

def letters : Texts := letterTexts id

/-- `/n/KEY/k`. -/
def key : Name := ⟨[.generic [110], .generic [75, 69, 89], .generic [107]]⟩

/-- One signature is that of the key, and there is no other. -/
def signedOnly : ServiceDiscoveryConfig :=
  { defaultConfig (2 * ·) (fun body _ => some body) (fun body _ => some body) fun _ _ => [] with
    recordVerifier := some fun data => if data.signature = [1] then some ⟨key, true⟩ else none }

/-- `/n/a`. -/
def service : Name := ⟨[.generic [110], .generic [97]]⟩

/-- A record of the prefix by the node `/n`. -/
def data (version : Nat) (signature : Bytes) : RawData :=
  ⟨sdServicesUnder sdRoot, some (ServiceRecord.encode ⟨service, .single 110, 15000, 0, version⟩),
    signature⟩

end Sample

end ServiceDiscovery

end NdnExt.Discovery
