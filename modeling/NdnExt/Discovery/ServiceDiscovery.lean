import NdnExt.Discovery.ServiceRecord
import NdnExt.Lib.HashMap
import NdnExt.Packet.NdnTlv

/-! Publishing and browsing of service records. -/

namespace NdnExt.Discovery

open NdnExt.Lib

/-- A moment of the clock and a duration, in nanoseconds. -/
abbrev Nanos := Nat

def fromMillis (ms : Nat) : Nanos := ms * 1000000

def fromSecs (secs : Nat) : Nanos := secs * 1000000000

structure FaceId where
  id : Nat
  deriving DecidableEq

structure NeighborEntry where
  nodeName : Name
  faces : List FaceId
  isReachable : Bool
  deriving DecidableEq

/-- What the engine tells a call: the time and the neighbor table. -/
structure Context where
  now : Nanos
  neighbors : List NeighborEntry

def Context.neighbor (ctx : Context) (name : Name) : Option NeighborEntry :=
  ctx.neighbors.find? fun e => e.nodeName = name

structure RawData where
  name : Name
  content : Option Bytes
  signature : Bytes
  deriving DecidableEq

inductive Packet where
  | interest (name : Name)
  | data (data : RawData)
  deriving DecidableEq

inductive Effect where
  | sendOn (face : FaceId) (packet : Packet)
  | addFibEntry (front : Name) (face : FaceId) (cost : UInt32)
  | removeFibEntry (front : Name) (face : FaceId)
  deriving DecidableEq

structure VerifyVerdict where
  identity : Name
  authentic : Bool

/-- Names as text and back, and the hash: code of other crates. -/
structure Texts where
  display : Name → List Char
  fromStr : List Char → Option Name
  sha256 : Bytes → Bytes

/-- `rawTtl` is the product with the multiplier, as the code rounds it; the verifier has a verdict
for what is verified. -/
structure ServiceDiscoveryConfig where
  autoPopulateFib : Bool
  autoFibCost : UInt32
  rawTtl : Nat → Nat
  autoFibMinTtl : Nat
  autoFibMaxTtl : Nat
  autoPopulatePrefixFilter : List Name
  maxRecordsPerScope : Nat
  maxBodyEntries : Nat
  maxRateLimitEntries : Nat
  maxRegistrationsPerProducer : Nat
  maxRegistrationsWindow : Nanos
  relayRecords : Bool
  recordVerifier : Option (RawData → Option VerifyVerdict)
  wrap : Bytes → ServiceRecord → Option Bytes
  unwrap : Bytes → ServiceRecord → Option Bytes
  sign : Name → Bytes → Bytes

section Configured

variable (rawTtl : Nat → Nat) (wrap unwrap : Bytes → ServiceRecord → Option Bytes)
  (sign : Name → Bytes → Bytes)

def ServiceDiscovery.defaultConfig : ServiceDiscoveryConfig where
  autoPopulateFib := true
  autoFibCost := 100
  rawTtl := rawTtl
  autoFibMinTtl := 5000
  autoFibMaxTtl := 300000
  autoPopulatePrefixFilter := []
  maxRecordsPerScope := 1000
  maxBodyEntries := 512
  maxRateLimitEntries := 1024
  maxRegistrationsPerProducer := 10
  maxRegistrationsWindow := fromSecs 60
  relayRecords := false
  recordVerifier := none
  wrap := wrap
  unwrap := unwrap
  sign := sign

end Configured

/-- Names with components of letters only, as text and back. -/
def letterTexts (sha256 : Bytes → Bytes) : Texts where
  display := fun name => if name.components.isEmpty then ['/'] else uriOf name.components
  fromStr := fun text =>
    match text.splitOn '/' with
    | [] :: parts =>
      some ⟨parts.map fun part => .generic (part.map fun c => UInt8.ofNat c.toNat)⟩
    | _ => none
  sha256 := sha256

structure RecordEntry where
  record : ServiceRecord
  publishedAtMs : Nat
  expiresAt : Option Nanos
  ownerFace : Option FaceId

structure ProducerRateLimit where
  count : Nat
  windowStart : Nanos

structure AutoFibEntry where
  front : Name
  faceId : FaceId
  expiresAt : Nanos
  nodeName : Name
  deriving DecidableEq

/-- The hash of a prefix and the text of a node. -/
abbrev BodyKey := Bytes × List Char

structure ServiceDiscovery where
  localRecords : List RecordEntry
  bodyStore : HashMap BodyKey Bytes
  peerRecords : List ServiceRecord
  rateLimits : HashMap (List Char) ProducerRateLimit
  autoFib : List AutoFibEntry
  browsedNeighbors : HashMap Name Unit
  lastBrowse : Option Nanos
  hasBodyMap : HashMap BodyKey Bool

/-! ### Encoding and names -/

def writeNameTlv (name : Name) : Bytes := NdnTlv.writeTlv tlvName (NdnTlv.encodeName name)

def writeNni (typ value : Nat) : Bytes := NdnTlv.writeTlv typ (beBytes (minimalWidth value) value)

def ServiceRecord.encode (record : ServiceRecord) : Bytes :=
  NdnTlv.writeTlv tAnnouncedPrefix (writeNameTlv record.announcedPrefix) ++
    (NdnTlv.writeTlv tSdNodeName (writeNameTlv record.nodeName) ++
      ((if record.freshnessMs > 0 then writeNni tFreshnessMs record.freshnessMs else []) ++
        ((if record.capabilities ≠ 0 then NdnTlv.writeTlv tSdCapabilities [record.capabilities]
          else []) ++
          (if record.version > 0 then writeNni tVersion record.version else []))))

/-- A byte as two lower-case digits. -/
def hexByte (b : UInt8) : Bytes :=
  let digit := fun n : Nat => UInt8.ofNat (if n < 10 then 48 + n else 87 + n)
  [digit (b.toNat / 16), digit (b.toNat % 16)]

def prefixHashHex (texts : Texts) (name : Name) : Bytes :=
  ((texts.sha256 (writeNameTlv name)).take 8).flatMap hexByte

def versionComponent (timestampMs : Nat) : NameComponent := ⟨0x0D, beBytes 8 timestampMs⟩

def makeRecordNameUnder (texts : Texts) (root announcedPrefix nodeName : Name)
    (timestampMs : Nat) : Name :=
  ⟨(sdServicesUnder root).components ++ .generic (prefixHashHex texts announcedPrefix) ::
    (nodeName.components ++ [versionComponent timestampMs])⟩

/-- `/ndn/local/sd`. -/
def sdRoot : Name :=
  ⟨[.generic [110, 100, 110], .generic [108, 111, 99, 97, 108], .generic [115, 100]]⟩

def ServiceRecord.makeName (texts : Texts) (record : ServiceRecord) (timestampMs : Nat) : Name :=
  makeRecordNameUnder texts sdRoot record.announcedPrefix record.nodeName timestampMs

def makeBodyName (rendezvousName root : Name) : Name :=
  ⟨rendezvousName.components.take root.components.length ++ serviceInfoComponent ::
    rendezvousName.components.drop (root.components.length + 1)⟩

namespace ServiceDiscovery

variable (texts : Texts) (root peersPrefix : Name) (config : ServiceDiscoveryConfig)

def new : ServiceDiscovery := ⟨[], ∅, [], ∅, [], ∅, none, ∅⟩

def bodyNameFor (record : ServiceRecord) (timestampMs : Nat) : Name :=
  makeBodyName
    (makeRecordNameUnder texts root record.announcedPrefix record.nodeName timestampMs) root

def signedData (name : Name) (content : Bytes) : RawData :=
  ⟨name, some content, config.sign name content⟩

def buildDataSigned (record : ServiceRecord) (timestampMs : Nat) : RawData :=
  signedData config (record.makeName texts timestampMs) record.encode

/-! ### Local records -/

def samePair (left right : ServiceRecord) : Bool :=
  left.announcedPrefix = right.announcedPrefix && left.nodeName = right.nodeName

/-- A local record takes the place of the one for its prefix and node. -/
def putLocal (records : List RecordEntry) (entry : RecordEntry) : List RecordEntry :=
  match records.findIdx? fun e => samePair e.record entry.record with
  | some i => records.set i entry
  | none => records ++ [entry]

def insertBody (store : HashMap BodyKey Bytes) (key : BodyKey) (wrapped : Bytes) :
    HashMap BodyKey Bytes :=
  let cap := max config.maxBodyEntries 1
  let store :=
    if (store.lookup key).isNone && store.entries.length ≥ cap then
      match store.keys.head? with
      | some victim => store.erase victim
      | none => store
    else store
  store.insert key wrapped

def publish (sd : ServiceDiscovery) (record : ServiceRecord) (timestampMs : Nat) :
    ServiceDiscovery :=
  { sd with
    localRecords :=
      putLocal sd.localRecords ⟨{ record with version := timestampMs }, timestampMs, none, none⟩ }

/-- A local record hides the peers' one for its prefix and node. -/
def allRecords (sd : ServiceDiscovery) : List ServiceRecord :=
  sd.peerRecords.foldl
    (fun out peer => if out.any fun r => samePair r peer then out else out ++ [peer])
    (sd.localRecords.map RecordEntry.record)

def publishWithBody (sd : ServiceDiscovery) (record : ServiceRecord) (body : Bytes)
    (timestampMs : Nat) : ServiceDiscovery :=
  let record := { record with version := timestampMs }
  match config.wrap body record with
  | none => sd
  | some wrapped => { sd with
      bodyStore := insertBody config sd.bodyStore
        (prefixHashHex texts record.announcedPrefix, texts.display record.nodeName) wrapped
      localRecords := putLocal sd.localRecords ⟨record, timestampMs, none, none⟩ }

/-! ### Interests -/

/-- The key of the body that a name asks for; the text of the node is written here by hand. -/
def bodyKey (name : Name) : Option BodyKey :=
  let rootLen := root.components.length
  let comps := name.components
  if comps.length < rootLen + 4 then none
  else
    let nodeUri := uriOf ((comps.take (comps.length - 1)).drop (rootLen + 2))
    comps[rootLen + 1]?.map fun hash => (hash.value, if nodeUri.isEmpty then ['/'] else nodeUri)

def handleBodyInterest (sd : ServiceDiscovery) (name : Name) (face : FaceId) : List Effect :=
  match (bodyKey root name).bind sd.bodyStore.lookup with
  | none => []
  | some body => [.sendOn face (.data (signedData config name body))]

def peerEntry (name : Name) : Bytes := NdnTlv.writeTlv tPeerEntry (writeNameTlv name)

def handlePeersInterest (ctx : Context) (name : Name) (face : FaceId) : List Effect :=
  let extra := name.components.drop peersPrefix.components.length
  if extra.isEmpty then
    let reachable := ctx.neighbors.filter NeighborEntry.isReachable
    [.sendOn face (.data (signedData config name
      (reachable.flatMap fun e => peerEntry e.nodeName)))]
  else
    match texts.fromStr (uriOf extra) with
    | none => []
    | some target =>
      let reachable := (ctx.neighbor target).filter NeighborEntry.isReachable
      [.sendOn face (.data (signedData config name
        (reachable.elim [] fun e => peerEntry e.nodeName)))]

def handleInterest (sd : ServiceDiscovery) (ctx : Context) (name : Name) (face : FaceId) :
    List Effect :=
  if hasPrefix name (sdServiceInfoUnder root) then handleBodyInterest root config sd name face
  else if hasPrefix name (sdServicesUnder root) then
    sd.localRecords.map fun entry =>
      .sendOn face (.data (buildDataSigned texts config entry.record entry.publishedAtMs))
  else if hasPrefix name peersPrefix then handlePeersInterest texts peersPrefix config ctx name face
  else []

/-! ### Data -/

/-- Whether the signature is a keyed one that verifies, and whose it is. -/
def verifyData (data : RawData) : Bool × Option Name :=
  match config.recordVerifier.bind fun verify => verify data with
  | some verdict => (verdict.authentic, some verdict.identity)
  | none => (false, none)

def handleBodyData (sd : ServiceDiscovery) (name : Name) (content : Option Bytes) :
    ServiceDiscovery :=
  let record := (bodyKey root name).bind fun key => sd.peerRecords.find? fun r =>
    prefixHashHex texts r.announcedPrefix = key.1 && texts.display r.nodeName = key.2
  match record with
  | none => sd
  | some rec =>
    let key := (prefixHashHex texts rec.announcedPrefix, texts.display rec.nodeName)
    let has := content.any fun body => (config.unwrap body rec).isSome
    { sd with hasBodyMap := sd.hasBodyMap.insert key has }

def oldest (limits : HashMap (List Char) ProducerRateLimit) :
    Option (List Char × ProducerRateLimit) :=
  limits.pairs.foldl (fun found entry =>
    match found with
    | none => some entry
    | some least => if entry.2.windowStart < least.2.windowStart then some entry else some least)
    none

/-- Room for a new key: windows that are over go, else the oldest one. -/
def makeRoom (limits : HashMap (List Char) ProducerRateLimit) (now : Nanos) :
    HashMap (List Char) ProducerRateLimit :=
  let cap := max config.maxRateLimitEntries 1
  let limits := limits.retain fun _ e => now - e.windowStart < config.maxRegistrationsWindow
  if limits.entries.length ≥ cap then
    match oldest limits with
    | some least => limits.erase least.1
    | none => limits
  else limits

def checkRateLimit (limits : HashMap (List Char) ProducerRateLimit) (identity : Name)
    (now : Nanos) : HashMap (List Char) ProducerRateLimit × Bool :=
  let key := texts.display identity
  let cap := max config.maxRateLimitEntries 1
  let limits :=
    if (limits.lookup key).isNone && limits.entries.length ≥ cap then makeRoom config limits now
    else limits
  let entry := (limits.lookup key).getD ⟨0, now⟩
  if now - entry.windowStart ≥ config.maxRegistrationsWindow then
    (limits.insert key ⟨1, now⟩, true)
  else if entry.count < config.maxRegistrationsPerProducer then
    (limits.insert key { entry with count := entry.count + 1 }, true)
  else (limits.insert key entry, false)

/-- The records with a new one, where it is newer than the one held for its prefix and node. -/
def putPeer (records : List ServiceRecord) (record : ServiceRecord) :
    Option (List ServiceRecord) :=
  match records.findIdx? fun r => samePair r record with
  | some i =>
    if records[i]?.any fun held => held.version ≠ 0 && record.version ≤ held.version then none
    else some (records.set i record)
  | none =>
    let cap := max config.maxRecordsPerScope 1
    some (records.drop (records.length + 1 - cap) ++ [record])

def signerNamespace (keyName : Name) : Option Name :=
  (keyName.components.findIdx? fun c => c.value = [75, 69, 89]).map fun i =>
    ⟨keyName.components.take i⟩

def fibFace (ctx : Context) (node : Name) (incoming : FaceId) : FaceId :=
  ((ctx.neighbor node).bind fun e => e.faces.head?).getD incoming

def ttlMs (freshnessMs : Nat) : Nat :=
  min (max (config.rawTtl freshnessMs) config.autoFibMinTtl) config.autoFibMaxTtl

def autoPopulateFib (fib : List AutoFibEntry) (ctx : Context) (record : ServiceRecord)
    (incoming : FaceId) : List AutoFibEntry × List Effect :=
  let face := fibFace ctx record.nodeName incoming
  ((fib.filter fun e => !(e.front = record.announcedPrefix && e.faceId = face)) ++
      [⟨record.announcedPrefix, face, ctx.now + fromMillis (ttlMs config record.freshnessMs),
        record.nodeName⟩],
    [.addFibEntry record.announcedPrefix face config.autoFibCost])

/-- A keyed signature whose signer's namespace covers the prefix. -/
def mayPopulate (data : RawData) (record : ServiceRecord) : Bool :=
  let (authentic, identity) := verifyData config data
  config.autoPopulateFib && authentic &&
    (identity.bind signerNamespace).any fun ns => hasPrefix record.announcedPrefix ns

def relay (ctx : Context) (data : RawData) (incoming : FaceId) : List Effect :=
  if config.relayRecords then
    (((ctx.neighbors.filter NeighborEntry.isReachable).flatMap NeighborEntry.faces).filter
      fun face => face ≠ incoming).map fun face => .sendOn face (.data data)
  else []

def passesFilter (record : ServiceRecord) : Bool :=
  config.autoPopulatePrefixFilter.isEmpty ||
    config.autoPopulatePrefixFilter.any fun f => hasPrefix record.announcedPrefix f

/-- The name whose records are counted: the verified signer, else the node it names itself. -/
def rateKey (data : RawData) (record : ServiceRecord) : Name :=
  (verifyData config data).2.getD record.nodeName

/-- A decoded record that the prefix filter lets through. -/
def handleRecord (sd : ServiceDiscovery) (ctx : Context) (data : RawData) (record : ServiceRecord)
    (incoming : FaceId) : ServiceDiscovery × List Effect :=
  let (limits, allowed) :=
    checkRateLimit texts config sd.rateLimits (rateKey config data record) ctx.now
  if !allowed then ({ sd with rateLimits := limits }, [])
  else
    match putPeer config sd.peerRecords record with
    | none => ({ sd with rateLimits := limits }, [])
    | some records =>
      let (fib, added) :=
        if mayPopulate config data record then autoPopulateFib config sd.autoFib ctx record incoming
        else (sd.autoFib, [])
      ({ sd with rateLimits := limits, peerRecords := records, autoFib := fib },
        added ++ relay config ctx data incoming)

/-- The record that a packet brings under the services of the root. -/
def recordOf (data : RawData) : Option ServiceRecord :=
  if hasPrefix data.name (sdServicesUnder root) then
    data.content.bind fun content =>
      match ServiceRecord.decode texts.fromStr content with
      | .ok record => some record
      | _ => none
  else none

def handleSdData (sd : ServiceDiscovery) (ctx : Context) (data : RawData) (incoming : FaceId) :
    ServiceDiscovery × List Effect :=
  if hasPrefix data.name (sdServiceInfoUnder root) then
    if config.recordVerifier.isSome && !(verifyData config data).1 then (sd, [])
    else (handleBodyData texts root config sd data.name data.content, [])
  else
    match recordOf texts root data with
    | none => (sd, [])
    | some record =>
      if passesFilter config record then handleRecord texts config sd ctx data record incoming
      else (sd, [])

def onInboundPacket (sd : ServiceDiscovery) (ctx : Context) (packet : Packet) (face : FaceId) :
    ServiceDiscovery × List Effect :=
  match packet with
  | .interest name => (sd, handleInterest texts root peersPrefix config sd ctx name face)
  | .data data => handleSdData texts root config sd ctx data face

/-! ### Ticks and faces -/

def expireAutoFib (sd : ServiceDiscovery) (now : Nanos) : ServiceDiscovery × List Effect :=
  let expired := sd.autoFib.filter fun e => now ≥ e.expiresAt
  ({ sd with
      autoFib := sd.autoFib.filter fun e => now < e.expiresAt
      peerRecords := sd.peerRecords.filter fun r =>
        !expired.any fun e => r.announcedPrefix = e.front && r.nodeName = e.nodeName
      browsedNeighbors := expired.foldl (fun seen e => seen.erase e.nodeName) sd.browsedNeighbors },
    expired.map fun e => .removeFibEntry e.front e.faceId)

def expireLocalRecords (sd : ServiceDiscovery) (now : Nanos) : ServiceDiscovery :=
  { sd with localRecords := sd.localRecords.filter fun e => e.expiresAt.all fun at' => now < at' }

def pruneRateLimits (sd : ServiceDiscovery) (now : Nanos) : ServiceDiscovery :=
  { sd with rateLimits := sd.rateLimits.retain fun _ e =>
      now - e.windowStart < config.maxRegistrationsWindow }

def computeBrowseInterval (fib : List AutoFibEntry) (now : Nanos) : Nanos :=
  let least := (fib.map fun e => (e.expiresAt - now) / 2).min?
  max (least.getD (fromSecs 30)) (fromSecs 10)

def browseInterest (face : FaceId) : Effect := .sendOn face (.interest (sdServicesUnder root))

def browseOne (periodicDue : Bool) (state : HashMap Name Unit × List Effect) (e : NeighborEntry) :
    HashMap Name Unit × List Effect :=
  let isNew := (state.1.lookup e.nodeName).isNone
  (state.1.insert e.nodeName (),
    state.2 ++ if isNew || periodicDue then e.faces.map (browseInterest root) else [])

def browseNeighbors (sd : ServiceDiscovery) (ctx : Context) (now interval : Nanos) :
    ServiceDiscovery × List Effect :=
  let periodicDue := sd.lastBrowse.all fun last => now - last ≥ interval
  let reachable := ctx.neighbors.filter NeighborEntry.isReachable
  let (seen, sent) := reachable.foldl (browseOne root periodicDue) (sd.browsedNeighbors, [])
  ({ sd with
      lastBrowse := if periodicDue then some now else sd.lastBrowse
      browsedNeighbors := seen.retain fun name _ => reachable.any fun e => e.nodeName = name },
    sent)

def onTick (sd : ServiceDiscovery) (ctx : Context) (now : Nanos) :
    ServiceDiscovery × List Effect :=
  let (sd, removed) := sd.expireAutoFib now
  let sd := pruneRateLimits config (sd.expireLocalRecords now) now
  let (sd, sent) := browseNeighbors root sd ctx now (computeBrowseInterval sd.autoFib now)
  (sd, removed ++ sent)

def onFaceDown (sd : ServiceDiscovery) (ctx : Context) (face : FaceId) :
    ServiceDiscovery × List Effect :=
  let affected := (ctx.neighbors.filter fun e => e.faces.contains face).map NeighborEntry.nodeName
  ({ sd with
      localRecords := sd.localRecords.filter fun e => e.ownerFace ≠ some face
      peerRecords := sd.peerRecords.filter fun r => !affected.contains r.nodeName
      autoFib := sd.autoFib.filter fun e => e.faceId ≠ face
      browsedNeighbors := affected.foldl (fun seen name => seen.erase name) sd.browsedNeighbors },
    (sd.autoFib.filter fun e => e.faceId = face).map fun e => .removeFibEntry e.front e.faceId)

end ServiceDiscovery

end NdnExt.Discovery
