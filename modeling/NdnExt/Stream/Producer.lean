import NdnExt.Stream.Fec

/-! The producer of a stream: numbering, retention, and the parity of every complete group. -/

namespace NdnExt.Stream

open NdnExt.Lib

/-- The encoder of the erasure code: from `k`, `k + r` and the source rows, the parity rows by
their index in the group, where it accepts the shape and the rows. -/
abbrev RowEncoder := Nat → Nat → List Bytes → Option (Nat → Option Bytes)

structure GroupEncoder where
  cfg : FecConfig
  current : List Bytes
  nextSeq : Nat

structure ProducerConfig where
  retention : Nat
  fec : Option FecConfig

structure Published where
  seq : Nat
  parity : List ParityItem

structure SessionProducer where
  session : Nat
  cfg : ProducerConfig
  nextSeq : Nat
  retained : List (Nat × Bytes)
  fec : Option GroupEncoder

def rowsWidth (payloads : List Bytes) : Nat :=
  if payloads = [] then 4 else (payloads.map (fun payload => 4 + payload.length)).foldl max 0

namespace GroupEncoder

def new (firstSeq : Nat) (cfg : FecConfig) : GroupEncoder := ⟨cfg, [], firstSeq⟩

variable (encoder : RowEncoder)

def emit (enc : GroupEncoder) (group : Nat) : Checked (List ParityItem) :=
  if enc.cfg.r = 0 then .ok []
  else do
    let width := rowsWidth enc.current
    let n ← u16 (enc.cfg.k + enc.cfg.r)
    match encoder enc.cfg.k n (enc.current.map (fun payload => frame payload width)) with
    | none => pure []
    | some parity =>
      pure ((List.range enc.cfg.r).filterMap (fun i =>
        (parity (enc.cfg.k + i)).map (fun payload => ⟨group, i, payload⟩)))

def push (enc : GroupEncoder) (payload : Bytes) : Checked (GroupEncoder × List ParityItem) := do
  let nextSeq ← u64 (enc.nextSeq + 1)
  let current := enc.current ++ [payload]
  if current.length < max enc.cfg.k 1 then
    pure ({ enc with current := current, nextSeq := nextSeq }, [])
  else
    let group := groupOf enc.nextSeq enc.cfg.k
    let items ← emit encoder { enc with current := current } group
    pure ({ enc with current := [], nextSeq := nextSeq }, items)

end GroupEncoder

namespace SessionProducer

def new (session : Nat) (cfg : ProducerConfig) : SessionProducer where
  session := session
  cfg := cfg
  nextSeq := 0
  retained := []
  fec := cfg.fec.map (GroupEncoder.new 0)

variable (encoder : RowEncoder)

def publish (producer : SessionProducer) (payload : Bytes) :
    Checked (SessionProducer × Published) := do
  let seq := producer.nextSeq
  let nextSeq ← u64 (seq + 1)
  let retained := producer.retained ++ [(seq, payload)]
  let kept := retained.drop (retained.length - max producer.cfg.retention 1)
  match producer.fec with
  | none => pure ({ producer with nextSeq := nextSeq, retained := kept }, ⟨seq, []⟩)
  | some enc => do
    let (enc, parity) ← enc.push encoder payload
    pure ({ producer with nextSeq := nextSeq, retained := kept, fec := some enc }, ⟨seq, parity⟩)

def publishAll (producer : SessionProducer) (payloads : List Bytes) :
    Checked (SessionProducer × List Published) :=
  payloads.foldlM (fun done payload => do
    let (producer, published) ← done.1.publish encoder payload
    pure (producer, done.2 ++ [published])) (producer, [])

end SessionProducer
end NdnExt.Stream
