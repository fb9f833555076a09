import NdnExt.Discovery.SurvivesWire
import NdnExt.Lib.Decimal
import NdnExt.Lib.Utf8
import NdnExt.Pipes.RelayStore

/-! The names of pipe messages, and the producer that answers them and serves coded objects. -/

namespace NdnExt.Pipes

open NdnExt.Lib List

def ghl : UInt8 := 64

inductive MessageKind where
  | seek
  | hide
  | join
  | context
  | link
  | pipe
  | check
  deriving DecidableEq

def parametersSha256 : Nat := 2

/-- A generic component of a text. -/
def verb (text : String) : NameComponent := .generic (asBytes text)

def seekPrefix : Name := ⟨[verb "NPD", verb "SEEK"]⟩

def joinPrefix : Name := ⟨[verb "NPD", verb "JOIN"]⟩

def commonPrefix : Name := ⟨[verb "COMMON"]⟩

def append (name : Name) (value : Bytes) : Name := name.appendComponent (.generic value)

def extend (name suffix : Name) : Name := ⟨name.components ++ suffix.components⟩

def seekName (ns : Name) : Name := extend seekPrefix ns

def joinName (ns : Name) (pipeId : Bytes) : Name := append (extend joinPrefix ns) pipeId

/-- The names of a pipe's control messages on the common channel. -/
def commonName (pipeId : Bytes) (hop : UInt32) (kind : String) : Name :=
  append (append (append commonPrefix pipeId) (decimal hop.toNat)) (asBytes kind)

def contextName (pipeId : Bytes) (hop : UInt32) : Name := commonName pipeId hop "CONTEXT"

def linkName (pipeId : Bytes) (hop : UInt32) : Name := commonName pipeId hop "LINK"

def pipeName (pipeId : Bytes) (hop : UInt32) : Name := commonName pipeId hop "PIPE"

def checkName (pipeId : Bytes) (pipeLength : UInt32) : Name :=
  append (append (append .root pipeId) (decimal pipeLength.toNat)) (asBytes "CHECK")

def textAt (name : Name) (i : Nat) : Option String :=
  name.components[i]?.bind fun c => fromUtf8 c.value

/-- The last component that is no digest of parameters. -/
def lastText (name : Name) : Option String :=
  (name.components.reverse.find? fun c => c.typ ≠ parametersSha256).bind fun c => fromUtf8 c.value

def classify (name : Name) : Option MessageKind :=
  if textAt name 0 = some "NPD" ∧ textAt name 1 = some "SEEK" then some .seek
  else if textAt name 0 = some "NPD" ∧ textAt name 1 = some "JOIN" then some .join
  else if lastText name = some "CONTEXT" then some .context
  else if lastText name = some "LINK" then some .link
  else if lastText name = some "PIPE" then some .pipe
  else if lastText name = some "CHECK" then some .check
  else none

def encodeSeekReply (sealed : Bytes) (pipeLen : UInt8) : Bytes := pipeLen :: sealed

def encodePipeBundle (pipeKey : Bytes) (puiMs : Nat) : Bytes := pipeKey ++ beBytes 8 puiMs

def hopIndex (globalHopLimit remainingHopLimit : UInt8) : UInt8 :=
  if remainingHopLimit ≤ globalHopLimit then globalHopLimit - remainingHopLimit else 0

/-! ### The producer -/

namespace PipeRegistry

def insert' (registry : PipeRegistry) (id : Bytes) (deadline : Nanos) (pipeKey : Bytes) :
    PipeRegistry :=
  registry.insert id ⟨deadline, pipeKey⟩

/-- Renews a live pipe, or reaps one that has lapsed. -/
def refreshIfLive (registry : PipeRegistry) (now : Nanos) (id : Bytes) (pui : Nanos) :
    Bool × PipeRegistry :=
  match registry.lookup id with
  | some e =>
    if now ≤ e.deadline then (true, registry.insert id { e with deadline := now + pui })
    else (false, registry.erase id)
  | none => (false, registry)

end PipeRegistry

structure CodedSegment where
  index : UInt16
  content : Bytes
  deriving DecidableEq

/-- What is used of other crates: names as text, coding, and sealing to a public key. -/
structure PipeCodec (Policy : Type) where
  display : Name → String
  segmentPayload : Bytes → Policy → UInt64 → Option (List CodedSegment)
  sealTo : Bytes → Bytes → Option Bytes

/-- Who signs a Data. -/
inductive DataSigner where
  | digest
  | identity (keyName : Name)
  | signer (keyName : Name)
  deriving DecidableEq

structure ServedData where
  name : Name
  content : Bytes
  signedBy : DataSigner
  deriving DecidableEq

structure PipeProducer where
  segments : HashMap String Bytes
  pui : Nanos
  registry : PipeRegistry
  identity : Option Name
  signer : Option Name
  pushSegments : List Bytes

structure PipeInterest where
  name : Name
  hopLimit : Option UInt8
  appParameters : Option Bytes
  reflexiveName : Option Name

/-- What an Interest leads to: reverse Interests that push segments, and a Data if any. -/
structure Reply where
  registry : PipeRegistry
  pushed : List (Name × Bytes)
  data : Option ServedData

/-- An object as it is given to `serve_object`. -/
structure ServedObject (Policy : Type) where
  object : Name
  payload : Bytes
  policy : Policy
  generationId : UInt64
  lossySkip : List UInt16
  /-- `conf.seal`. -/
  conf : Bytes → Bytes

def segmentName (object : Name) (index : UInt16) : Name := append object (decimal index.toNat)

def pidAt (name : Name) (i : Nat) : Option Bytes := name.components[i]?.map NameComponent.value

section Producer

variable {Policy : Type} (codec : PipeCodec Policy)

/-- The random pipe id and key are given; each of them may have failed. -/
def mintAndSeal (consumerPub pipeId pipeKey : Option Bytes) : Option (Bytes × Bytes × Bytes) := do
  let pub ← consumerPub
  let pipeId ← pipeId
  let pipeKey ← pipeKey
  let sealed ← codec.sealTo pub (pipeId ++ pipeKey)
  pure (pipeId, pipeKey, sealed)

namespace PipeProducer

def new : PipeProducer := ⟨∅, 10 * 10 ^ 9, ∅, none, none, []⟩

def serveObject (producer : PipeProducer) (served : ServedObject Policy) :
    Checked PipeProducer := do
  let sealed := served.conf served.payload
  let segs ← .checked (codec.segmentPayload sealed served.policy served.generationId)
  pure { producer with
    segments := segs.foldl (fun segments s =>
      if served.lossySkip.contains s.index then segments
      else segments.insert (codec.display (segmentName served.object s.index)) s.content)
      producer.segments }

def serveObjects (producer : PipeProducer) (served : List (ServedObject Policy)) :
    Checked PipeProducer :=
  served.foldlM (serveObject codec) producer

/-- The handler of `serve_inner`; `pushing` is whether there is a side consumer. -/
def serveInner (producer : PipeProducer) (pushing : Bool) (now : Nanos)
    (pipeId pipeKey : Option Bytes) (interest : PipeInterest) : Reply :=
  let name := interest.name
  match classify name with
  | some .seek =>
    let pipeLen := hopIndex ghl (interest.hopLimit.getD ghl)
    match mintAndSeal codec interest.appParameters pipeId pipeKey with
    | some (pipeId, pipeKey, sealed) =>
      let registry := producer.registry.insert' pipeId (now + producer.pui) pipeKey
      let body := encodeSeekReply sealed pipeLen
      let signedBy := match producer.signer, producer.identity with
        | some keyName, _ => .signer keyName
        | none, some keyName => .identity keyName
        | none, none => .digest
      ⟨registry, [], some ⟨name, body, signedBy⟩⟩
    | none => ⟨producer.registry, [], none⟩
  | some .join =>
    let pushed := match pushing, interest.reflexiveName with
      | true, some r => producer.pushSegments.zipIdx.map fun seg =>
        (append (append r (asBytes "push")) (decimal seg.2), seg.1)
      | _, _ => []
    ⟨producer.registry, pushed, some ⟨name, asBytes "JOINED", .digest⟩⟩
  | some .check =>
    let (alive, registry) := match pidAt name 0 with
      | some id => producer.registry.refreshIfLive now id producer.pui
      | none => (false, producer.registry)
    ⟨registry, [], if alive then some ⟨name, asBytes "OK", .digest⟩ else none⟩
  | some .pipe =>
    let bundle := do
      let id ← pidAt name 1
      let key ← producer.registry.pipeKey now id
      let pub ← interest.appParameters
      codec.sealTo pub (encodePipeBundle key (producer.pui / 10 ^ 6 % 2 ^ 64))
    ⟨producer.registry, [], bundle.map fun sealed => ⟨name, sealed, .digest⟩⟩
  | _ =>
    let content := producer.segments.lookup (codec.display name)
    ⟨producer.registry, [], content.map fun content => ⟨name, content, .digest⟩⟩

end PipeProducer

/-- The segments of served objects that are registered, in this order. -/
def registered (served : List (ServedObject Policy)) : List (Name × CodedSegment) :=
  served.flatMap fun one =>
    (((codec.segmentPayload (one.conf one.payload) one.policy one.generationId).getD []).filter
      fun s => !one.lossySkip.contains s.index).map fun s => (one.object, s)

end Producer

/-- The name is taken for one of the producer search or of a commit. -/
def UnderControl (name : Name) : Prop :=
  textAt name 0 = some "NPD" ∧ (textAt name 1 = some "SEEK" ∨ textAt name 1 = some "JOIN")

/-! ### Which message a name is of -/

variable {text : String} {name : Name} {value : Bytes}

theorem fromUtf8_eq_some {bytes : List UInt8} :
    fromUtf8 bytes = some text ↔ bytes = asBytes text := by
  constructor
  · intro decoded
    exact (asBytes_fromUtf8 decoded).symm
  · rintro rfl
    exact fromUtf8_asBytes text

theorem asBytes_inj {text' : String} (same : asBytes text = asBytes text') : text = text' := by
  have decoded := congrArg fromUtf8 same
  rw [fromUtf8_asBytes, fromUtf8_asBytes] at decoded
  exact Option.some.inj decoded

theorem textAt_eq_some {i : Nat} :
    textAt name i = some text ↔ ∃ c, name.components[i]? = some c ∧ c.value = asBytes text := by
  rw [textAt, Option.bind_eq_some_iff]
  simp only [fromUtf8_eq_some]

/-- A number is no word. -/
theorem decimal_ne_asBytes {n : Nat} (letter : 65 ≤ (asBytes text).headD 0) :
    decimal n ≠ asBytes text := by
  intro same
  rw [← same] at letter
  cases digits : decimal n with
  | nil =>
    rw [digits] at letter
    exact absurd letter (by decide)
  | cons b rest =>
    have digit := @digit_of_mem_decimal n b (digits ▸ mem_cons_self)
    rw [digits] at letter
    exact absurd (UInt8.le_trans letter digit.2) (by decide)

/-- The digest of parameters that a builder of Interests may append. -/
def withDigest (name : Name) (digest : Option Bytes) : Name :=
  match digest with
  | none => name
  | some digest => name.appendComponent ⟨parametersSha256, digest⟩

theorem textAt_withDigest {i : Nat} (inside : i < name.components.length)
    (digest : Option Bytes) : textAt (withDigest name digest) i = textAt name i := by
  cases digest with
  | none => rfl
  | some digest =>
    rw [withDigest, textAt, Name.appendComponent, List.getElem?_append_left inside]
    rfl

theorem lastText_withDigest (name : Name) (digest : Option Bytes) :
    lastText (withDigest name digest) = lastText name := by
  cases digest with
  | none => rfl
  | some digest =>
    rw [lastText, withDigest, Name.appendComponent, reverse_append]
    rfl

theorem lastText_append (name : Name) (value : Bytes) :
    lastText (append name value) = fromUtf8 value := by
  rw [lastText, append, Name.appendComponent, reverse_append]
  rfl

/-- Names of at least two components are told apart by the first two and the last one. -/
theorem classify_withDigest (two : 2 ≤ name.components.length)
    (digest : Option Bytes) : classify (withDigest name digest) = classify name := by
  unfold classify
  rw [textAt_withDigest (by omega), textAt_withDigest (by omega), lastText_withDigest]

theorem not_underControl_iff : ¬ UnderControl name ↔
    ¬ (textAt name 0 = some "NPD" ∧ textAt name 1 = some "SEEK") ∧
      ¬ (textAt name 0 = some "NPD" ∧ textAt name 1 = some "JOIN") := by
  rw [UnderControl, and_or_left, not_or]

/-- Outside of the two prefixes the last component decides. -/
theorem classify_append (free : ¬ UnderControl (append name value)) :
    classify (append name value) =
      if value = asBytes "CONTEXT" then some .context
      else if value = asBytes "LINK" then some .link
      else if value = asBytes "PIPE" then some .pipe
      else if value = asBytes "CHECK" then some .check
      else none := by
  rcases not_underControl_iff.mp free with ⟨seek, join⟩
  rw [classify, if_neg seek, if_neg join, lastText_append]
  simp only [fromUtf8_eq_some]

/-- The kind of each name that a builder makes, and the segments that a producer serves. -/
structure Builders : Prop where
  seek : ∀ ns digest, classify (withDigest (seekName ns) digest) = some .seek
  join : ∀ ns pipeId digest, classify (withDigest (joinName ns pipeId) digest) = some .join
  context : ∀ pipeId hop digest,
    classify (withDigest (contextName pipeId hop) digest) = some .context
  link : ∀ pipeId hop digest, classify (withDigest (linkName pipeId hop) digest) = some .link
  pipe : ∀ pipeId hop digest, classify (withDigest (pipeName pipeId hop) digest) = some .pipe
  check : ∀ pipeId pipeLength digest,
    classify (withDigest (checkName pipeId pipeLength) digest) = some .check

theorem classify_common (pipeId : Bytes) (hop : UInt32) (kind : String) (digest : Option Bytes) :
    classify (withDigest (commonName pipeId hop kind) digest) =
      if asBytes kind = asBytes "CONTEXT" then some .context
      else if asBytes kind = asBytes "LINK" then some .link
      else if asBytes kind = asBytes "PIPE" then some .pipe
      else if asBytes kind = asBytes "CHECK" then some .check
      else none := by
  have common : ¬ UnderControl (commonName pipeId hop kind) := by
    rintro ⟨first, _⟩
    rcases textAt_eq_some.mp first with ⟨c, ⟨⟩, same⟩
    exact absurd (asBytes_inj same) (by decide)
  have two : 2 ≤ (commonName pipeId hop kind).components.length := show 2 ≤ 4 by decide
  rw [classify_withDigest two]
  exact classify_append common

theorem classify_check (pipeId : Bytes) (pipeLength : UInt32) (digest : Option Bytes) :
    classify (withDigest (checkName pipeId pipeLength) digest) = some .check := by
  have free : ¬ UnderControl (checkName pipeId pipeLength) := by
    rintro ⟨_, second | second⟩
    · rcases textAt_eq_some.mp second with ⟨c, ⟨⟩, same⟩
      exact decimal_ne_asBytes (by decide) same
    · rcases textAt_eq_some.mp second with ⟨c, ⟨⟩, same⟩
      exact decimal_ne_asBytes (by decide) same
  have two : 2 ≤ (checkName pipeId pipeLength).components.length := show 2 ≤ 3 by decide
  rw [classify_withDigest two]
  refine (classify_append free).trans ?_
  decide

theorem Builders.all : Builders where
  seek ns digest := by
    have two : 2 ≤ (seekName ns).components.length := by
      rw [seekName, extend, length_append]
      exact Nat.le_add_right _ _
    rw [classify_withDigest two, classify, if_pos]
    exact ⟨textAt_eq_some.mpr ⟨_, rfl, rfl⟩, textAt_eq_some.mpr ⟨_, rfl, rfl⟩⟩
  join ns pipeId digest := by
    have two : 2 ≤ (joinName ns pipeId).components.length := by
      rw [joinName, append, Name.appendComponent, extend, length_append, length_append]
      exact (Nat.le_add_right _ _).trans (Nat.le_add_right _ _)
    have second : textAt (joinName ns pipeId) 1 = some "JOIN" := textAt_eq_some.mpr ⟨_, rfl, rfl⟩
    rw [classify_withDigest two, classify, second, if_neg, if_pos]
    · exact ⟨textAt_eq_some.mpr ⟨_, rfl, rfl⟩, rfl⟩
    · rintro ⟨_, other⟩
      exact absurd other (by decide)
  context pipeId hop digest := by
    rw [contextName, classify_common]
    decide
  link pipeId hop digest := by
    rw [linkName, classify_common]
    decide
  pipe pipeId hop digest := by
    rw [pipeName, classify_common]
    decide
  check := classify_check

/-! ### Segments -/

theorem decimal_inj {n n' : Nat} (same : decimal n = decimal n') : n = n' := by
  have parsed := congrArg parseDigits same
  rw [parseDigits_decimal, parseDigits_decimal] at parsed
  exact Option.some.inj parsed

/-- The name of a segment is under control exactly if its object is. -/
theorem underControl_segmentName (object : Name) (index : UInt16) :
    UnderControl (segmentName object index) ↔ UnderControl object := by
  have digits : ∀ {i text}, 65 ≤ (asBytes text).headD 0 →
      (textAt (segmentName object index) i = some text ↔ textAt object i = some text) := by
    intro i text letter
    rw [textAt_eq_some, textAt_eq_some, segmentName, append, Name.appendComponent]
    by_cases inside : i < object.components.length
    · rw [List.getElem?_append_left inside]
    · rw [List.getElem?_append_right (Nat.le_of_not_lt inside),
        List.getElem?_eq_none (Nat.le_of_not_lt inside), List.getElem?_singleton]
      refine iff_of_false ?_ ?_
      · rintro ⟨c, found, same⟩
        split at found
        · cases found
          exact decimal_ne_asBytes letter same
        · cases found
      · rintro ⟨c, found, _⟩
        cases found
  rw [UnderControl, UnderControl, digits (by decide), digits (by decide), digits (by decide)]

theorem classify_segmentName {object : Name} (free : ¬ UnderControl object) (index : UInt16) :
    classify (segmentName object index) = none := by
  have outside := mt (underControl_segmentName object index).mp free
  refine (classify_append outside).trans ?_
  rw [if_neg (decimal_ne_asBytes (by decide)), if_neg (decimal_ne_asBytes (by decide)),
    if_neg (decimal_ne_asBytes (by decide)), if_neg (decimal_ne_asBytes (by decide))]

theorem segmentName_inj {object object' : Name} {index index' : UInt16}
    (same : segmentName object index = segmentName object' index') :
    object = object' ∧ index = index' := by
  rcases Name.appendComponent_inj same with ⟨objects, parts⟩
  have bytes := congrArg NameComponent.value parts
  exact ⟨objects, UInt16.toNat_inj.mp (decimal_inj bytes)⟩

section Served

variable {Policy : Type} {codec : PipeCodec Policy} {producer served' : PipeProducer}

/-- What a registered segment is stored under. -/
def PipeCodec.entry (codec : PipeCodec Policy) (one : Name × CodedSegment) : String × Bytes :=
  (codec.display (segmentName one.1 one.2.index), one.2.content)

theorem serveObject_eq {one : ServedObject Policy}
    (result : producer.serveObject codec one = .ok served') :
    served' = { producer with
      segments := ((registered codec [one]).map codec.entry).foldl
        (fun m item => m.insert item.1 item.2) producer.segments } := by
  rcases Outcome.bind_eq_ok.mp result with ⟨segs, coded, result⟩
  have found : codec.segmentPayload (one.conf one.payload) one.policy one.generationId =
      some segs := by
    cases payload : codec.segmentPayload (one.conf one.payload) one.policy one.generationId with
    | none =>
      rw [payload] at coded
      cases coded
    | some segs' =>
      rw [payload] at coded
      cases coded
      rfl
  cases result
  congr 1
  rw [registered, flatMap_singleton, found, Option.getD_some, map_map, foldl_map,
    foldl_filter]
  congr 1
  funext segments s
  cases one.lossySkip.contains s.index <;> rfl

theorem serveObjects_eq {served : List (ServedObject Policy)}
    (result : producer.serveObjects codec served = .ok served') :
    served' = { producer with
      segments := ((registered codec served).map codec.entry).foldl
        (fun m item => m.insert item.1 item.2) producer.segments } := by
  induction served generalizing producer with
  | nil =>
    cases result
    rfl
  | cons one more ih =>
    rcases Outcome.bind_eq_ok.mp result with ⟨next, first, rest⟩
    have both : registered codec (one :: more) =
        registered codec [one] ++ registered codec more := by
      rw [registered, flatMap_cons, registered, flatMap_singleton]
      rfl
    rw [ih rest, serveObject_eq first, both, map_append, foldl_append]

end Served

/-- Messages and segments are told apart. -/
structure NeverConfused {Policy : Type} (codec : PipeCodec Policy) : Prop where
  builders : Builders
  served : ∀ (start producer : PipeProducer) (served : List (ServedObject Policy)),
    start.serveObjects codec served = .ok producer →
    ∀ earlier object segment later,
      registered codec served = earlier ++ (object, segment) :: later →
      (∀ other ∈ later, other.1 = object → other.2.index ≠ segment.index) →
      ¬ UnderControl object →
      ∀ pushing now pipeId pipeKey interest, interest.name = segmentName object segment.index →
        producer.serveInner codec pushing now pipeId pipeKey interest =
          ⟨producer.registry, [], some ⟨interest.name, segment.content, .digest⟩⟩

theorem never_confused {Policy : Type} (codec : PipeCodec Policy)
    (injective : Function.Injective codec.display) : NeverConfused codec where
  builders := Builders.all
  served start producer served result earlier object segment later split last free pushing now
      pipeId pipeKey interest named := by
    have held : producer.segments.lookup (codec.display interest.name) = some segment.content := by
      have last' : codec.display interest.name ∉ (later.map codec.entry).map Prod.fst := by
        rw [List.map_map]
        intro among
        rcases List.mem_map.mp among with ⟨other, member, same⟩
        have again := segmentName_inj ((injective same).trans named)
        exact last other member again.1 again.2
      rw [serveObjects_eq result, split, List.map_append, List.map_cons, named]
      rw [named] at last'
      exact HashMap.lookup_foldl_insert_last last' _
    have kind : classify interest.name = none := by
      rw [named]
      exact classify_segmentName free segment.index
    unfold PipeProducer.serveInner
    dsimp only
    rw [kind]
    dsimp only
    rw [held, Option.map_some]

/-! ### Names as text -/

namespace Uri

open Discovery Discovery.Uri

/-- A value as text; one of periods only is written with three more. -/
def valueText (value : Bytes) : List Char :=
  written (if value.all (· = 46) then [46, 46, 46] ++ value else value)

def typeText (typ : Nat) : List Char := if typ = 8 then [] else Nat.toDigits 10 typ ++ ['=']

def componentText (c : NameComponent) : List Char := typeText c.typ ++ valueText c.value

def nameText (name : Name) : List Char :=
  if name.components.isEmpty then ['/']
  else name.components.flatMap fun c => '/' :: componentText c

theorem valueText_inj {value' : Bytes} (same : valueText value = valueText value') :
    value = value' := by
  have bytes := congrArg unescape same
  rw [valueText, valueText, unescape_written, unescape_written] at bytes
  by_cases periods : value.all (· = 46)
  · by_cases periods' : value'.all (· = 46)
    · rw [if_pos periods, if_pos periods'] at bytes
      exact append_cancel_left bytes
    · rw [if_pos periods, if_neg periods'] at bytes
      rw [← bytes, all_append, periods] at periods'
      exact absurd rfl periods'
  · by_cases periods' : value'.all (· = 46)
    · rw [if_neg periods, if_pos periods'] at bytes
      rw [bytes, all_append, periods'] at periods
      exact absurd rfl periods
    · rw [if_neg periods, if_neg periods'] at bytes
      exact bytes

theorem valueText_ne_nil (value : Bytes) : valueText value ≠ [] := by
  intro empty
  have bytes := congrArg unescape empty
  rw [valueText, unescape_written] at bytes
  change _ = [] at bytes
  split at bytes
  · cases bytes
  · next words =>
    rw [bytes] at words
    exact words rfl

theorem mem_valueText {c : Char} (among : c ∈ valueText value) :
    c ≠ '=' ∧ c ≠ '/' := by
  have digits : ∀ n < 16, hexDigit n ≠ '=' ∧ hexDigit n ≠ '/' := by decide
  rcases mem_flatMap.mp among with ⟨b, _, among⟩
  have bound := b.toNat_lt
  rw [uriByte] at among
  split at among
  · next plain =>
    have known : ∀ n < 256, isUnreserved (UInt8.ofNat n) = true →
        Char.ofNat n ≠ '=' ∧ Char.ofNat n ≠ '/' := by decide +kernel
    rw [mem_singleton.mp among]
    exact known b.toNat bound (by simpa using plain)
  · rcases mem_cons.mp among with rfl | among
    · decide
    rcases mem_pair.mp among with rfl | rfl
    · exact digits _ (by omega)
    · exact digits _ (by omega)

theorem mem_toDigits {n : Nat} {c : Char} (among : c ∈ Nat.toDigits 10 n) : c ≠ '=' ∧ c ≠ '/' := by
  have digit := digit_of_mem_decimal (mem_map_of_mem among)
  constructor
  · rintro rfl
    exact absurd digit.2 (by decide)
  · rintro rfl
    exact absurd digit.1 (by decide)

theorem mem_typeText {typ : Nat} {c : Char} (among : c ∈ typeText typ) : c ≠ '/' := by
  rw [typeText] at among
  split at among
  · cases among
  · rcases mem_append.mp among with digit | sign
    · exact (mem_toDigits digit).2
    · rw [mem_singleton.mp sign]
      decide

theorem componentText_ne_nil (c : NameComponent) : componentText c ≠ [] := by
  intro empty
  exact valueText_ne_nil c.value (append_eq_nil_iff.mp empty).2

theorem takeWhile_typed (typ : Nat) (value : Bytes) :
    (Nat.toDigits 10 typ ++ ['='] ++ valueText value).takeWhile (· ≠ '=') =
      Nat.toDigits 10 typ := by
  rw [append_assoc, takeWhile_append_of_pos]
  · exact append_nil _
  · intro c among
    exact decide_eq_true (mem_toDigits among).1

theorem componentText_inj {c c' : NameComponent} (same : componentText c = componentText c') :
    c = c' := by
  have apart : ∀ {typ : Nat} {value value' : Bytes},
      valueText value ≠ Nat.toDigits 10 typ ++ ['='] ++ valueText value' := by
    intro typ value value' equal
    have sign : '=' ∈ valueText value := by
      rw [equal]
      exact mem_append_left _ (mem_append_right _ mem_cons_self)
    exact (mem_valueText sign).1 rfl
  rcases c with ⟨typ, value⟩
  rcases c' with ⟨typ', value'⟩
  rw [componentText, componentText, typeText, typeText] at same
  dsimp only at same
  by_cases generic : typ = 8
  · by_cases generic' : typ' = 8
    · rw [if_pos generic, if_pos generic', nil_append, nil_append] at same
      rw [generic, generic', valueText_inj same]
    · rw [if_pos generic, if_neg generic', nil_append] at same
      exact absurd same apart
  · by_cases generic' : typ' = 8
    · rw [if_neg generic, if_pos generic', nil_append] at same
      exact absurd same.symm apart
    · rw [if_neg generic, if_neg generic'] at same
      have digits := congrArg (List.takeWhile (· ≠ '=')) same
      rw [takeWhile_typed, takeWhile_typed] at digits
      rw [digits] at same
      have types : typ = typ' :=
        decimal_inj (congrArg (List.map fun digit : Char => UInt8.ofNat digit.toNat) digits)
      rw [types, valueText_inj (append_cancel_left same)]

theorem parts_components (components : List NameComponent) :
    parts (components.flatMap fun c => '/' :: componentText c) =
      ([], components.map componentText) := by
  induction components with
  | nil => rfl
  | cons c more ih =>
    have whole : '/' ∉ componentText c := by
      intro among
      rcases mem_append.mp among with type | value
      · exact mem_typeText type rfl
      · exact (mem_valueText value).2 rfl
    have text : ((c :: more).flatMap fun c => '/' :: componentText c) =
        '/' :: (componentText c ++ more.flatMap fun c => '/' :: componentText c) := by
      rw [flatMap_cons]
      rfl
    have step : ∀ rest : List Char,
        parts ('/' :: rest) = ([], (parts rest).1 :: (parts rest).2) := by
      intro rest
      rw [parts, foldr_cons, if_pos rfl]
      rfl
    rw [text, step, parts_append whole, ih, append_nil, map_cons]

theorem nameText_inj : Function.Injective nameText := by
  have apart : ∀ components : List NameComponent,
      (components.flatMap fun c => '/' :: componentText c) ≠ ['/'] := by
    intro components same
    have read := congrArg parts same
    rw [parts_components] at read
    have texts : components.map componentText = [[]] := congrArg Prod.snd read
    rcases map_eq_singleton_iff.mp texts with ⟨c, _, empty⟩
    exact componentText_ne_nil c empty
  rintro ⟨components⟩ ⟨components'⟩ same
  rw [nameText, nameText] at same
  dsimp only at same
  split at same
  · next empty =>
    split at same
    · next empty' =>
      rw [isEmpty_iff.mp empty, isEmpty_iff.mp empty']
    · exact absurd same.symm (apart components')
  · split at same
    · exact absurd same (apart components)
    · have read := congrArg parts same
      rw [parts_components, parts_components] at read
      have texts : components.map componentText = components'.map componentText :=
        congrArg Prod.snd read
      rw [map_injective_iff.mpr (fun _ _ => componentText_inj) texts]

end Uri

namespace Served

/-- Payloads that fit into one segment, without parity. -/
def codec : PipeCodec Unit where
  display name := String.ofList (Uri.nameText name)
  segmentPayload payload _ _ := some [⟨0, payload⟩]
  sealTo _ secret := some secret

theorem display_injective : Function.Injective codec.display := by
  intro name name' same
  exact Uri.nameText_inj (String.ofList_injective same)

def plainObject (object : Name) : ServedObject Unit := ⟨object, [7], (), 0, [], id⟩

/-- An object in the namespace of the producer search. -/
def seekObject : Name := seekPrefix

theorem never_confused_codec : NeverConfused codec := never_confused codec display_injective

/-- The segment of an object in the namespace of the producer search is not served. -/
theorem seek_object_unserved : ∃ producer, PipeProducer.new.serveObjects codec
      [plainObject seekObject] = .ok producer ∧
    registered codec [plainObject seekObject] = [(seekObject, ⟨0, [7]⟩)] ∧
      (producer.serveInner codec false 0 none none
        ⟨segmentName seekObject 0, none, none, none⟩).data = none := by
  refine ⟨_, rfl, rfl, ?_⟩
  rfl

end Served

end NdnExt.Pipes
