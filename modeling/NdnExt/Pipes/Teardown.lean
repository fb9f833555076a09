import Mathlib.Data.Set.Function
import NdnExt.Packet.NdnTlv
import NdnExt.Pipes.RelayStore

/-! Who tears a pipe down: the proof a teardown carries, and what a node on its path does with it. -/

namespace NdnExt.Pipes

open NdnExt.Lib

inductive PathOp where
  | redirect
  | refresh
  | teardown
  deriving DecidableEq

/-- A message that walks the path of a target. -/
structure PathControl where
  target : Name
  op : PathOp
  seq : UInt64
  deriving DecidableEq

/-- The hash, the encoding of names and the codes of operations. -/
structure Crypto where
  sha256 : Bytes → Vector UInt8 32
  encodeToTlv : Name → Bytes
  opCode : PathOp → UInt8

def teardownMacLen : Nat := 32

/-- A number as the four bytes of its lowest 32 bits. -/
def u32Bytes (value : Nat) : Bytes := beBytes 4 value

def lengthPrefixed (bytes : Bytes) : Bytes := u32Bytes bytes.length ++ bytes

def macDomain : Bytes := "ndn-pipes/teardown-mac/v1".toUTF8.toList

/-- What is hashed for a teardown. -/
def macInput (crypto : Crypto) (key : Bytes) (target : Name) (op : PathOp) (seq : UInt64)
    (id : Bytes) : Bytes :=
  macDomain ++ lengthPrefixed key ++ lengthPrefixed (crypto.encodeToTlv target) ++
    [crypto.opCode op] ++ beBytes 8 seq.toNat ++ lengthPrefixed id

def teardownMac (crypto : Crypto) (key : Bytes) (target : Name) (op : PathOp) (seq : UInt64)
    (id : Bytes) : Bytes :=
  (crypto.sha256 (macInput crypto key target op seq id)).toList

/-- Equality of bytes, without a branch on a byte. -/
def ctEq (a b : Bytes) : Bool :=
  if a.length ≠ b.length then false
  else (a.zip b).foldl (fun diff pair => diff ||| (pair.1 ^^^ pair.2)) (0 : UInt8) == 0

/-- What a node knows of the pipes it holds. -/
structure PipeMembership (M : Type) where
  pipeKey : M → Bytes → Option Bytes
  reapAuthorized : M → Bytes → M × Option Name
  suppressNamespace : M → Name → M

def relayMembership : PipeMembership RelayPipeStore where
  pipeKey := RelayPipeStore.pipeKey
  reapAuthorized := RelayPipeStore.reapNow
  suppressNamespace := RelayPipeStore.suppress

/-- The producer suppresses nothing: it is the end of the path. -/
def registryMembership (now : Nanos) : PipeMembership PipeRegistry where
  pipeKey registry id := registry.pipeKey now id
  reapAuthorized registry id := (registry.reapNow id, none)
  suppressNamespace registry _ := registry

def encodePipeTeardownParams (id mac : Bytes) : Bytes := u32Bytes id.length ++ id ++ mac

def decodePipeTeardownParams (p : Bytes) : Option (Bytes × Bytes) :=
  if p.length < 4 then none
  else
    let idLen := ofBe (p.take 4)
    let rest := p.drop 4
    if rest.length < idLen then none
    else
      let mac := rest.drop idLen
      if mac.length ≠ teardownMacLen then none else some (rest.take idLen, mac)

def pipeTeardownTarget (ns : Name) (id : Bytes) : Name :=
  ns.appendComponent (.generic id)

/-- The message of a pipe's teardown, and the parameters it carries. -/
def pipeTeardownInterest (crypto : Crypto) (ns : Name) (id key : Bytes) (seq : UInt64) :
    PathControl × Bytes :=
  let target := pipeTeardownTarget ns id
  (⟨target, .teardown, seq⟩,
    encodePipeTeardownParams id (teardownMac crypto key target .teardown seq id))

section Control

variable {M : Type} (crypto : Crypto) (membership : PipeMembership M) (node : M)

def verifyTeardown (pc : PathControl) (id mac : Bytes) : Bool :=
  match membership.pipeKey node id with
  | none => false
  | some key => ctEq (teardownMac crypto key pc.target pc.op pc.seq id) mac

/-- Whether a node lets a message walk on, with the parameters of its Interest. -/
def authorize (pc : PathControl) (appParameters : Option Bytes) : Bool :=
  if pc.op ≠ .teardown then false
  else
    match appParameters.bind decodePipeTeardownParams with
    | none => false
    | some (id, mac) => verifyTeardown crypto membership node pc id mac

def onTeardown (pc : PathControl) (params : Bytes) : M :=
  match decodePipeTeardownParams params with
  | none => node
  | some (id, mac) =>
    if verifyTeardown crypto membership node pc id mac then
      match membership.reapAuthorized node id with
      | (reaped, some ns) => membership.suppressNamespace reaped ns
      | (reaped, none) => reaped
    else node

end Control

/-! ### The parameters -/

theorem fold_or_eq_zero (pairs : List (UInt8 × UInt8)) (diff : UInt8) :
    pairs.foldl (fun diff pair => diff ||| (pair.1 ^^^ pair.2)) diff = 0 ↔
      diff = 0 ∧ ∀ pair ∈ pairs, pair.1 = pair.2 := by
  induction pairs generalizing diff with
  | nil => simp
  | cons pair rest ih =>
    rw [List.foldl_cons, ih, List.forall_mem_cons, ← and_assoc]
    apply and_congr_left
    intro _
    rw [UInt8.or_eq_zero_iff, UInt8.xor_eq_zero_iff]

theorem ctEq_iff {a b : Bytes} : ctEq a b = true ↔ a = b := by
  unfold ctEq
  split
  · next different =>
    refine iff_of_false nofun ?_
    rintro rfl
    exact different rfl
  · next same =>
    rw [not_ne_iff] at same
    rw [beq_iff_eq, fold_or_eq_zero]
    constructor
    · rintro ⟨_, equal⟩
      refine List.ext_getElem same ?_
      intro i first second
      exact equal (a[i], b[i]) (List.mem_iff_getElem.mpr ⟨i, by rw [List.length_zip]; omega,
        List.getElem_zip⟩)
    · rintro rfl
      refine ⟨rfl, ?_⟩
      intro pair among
      rcases List.mem_iff_getElem.mp among with ⟨i, bound, rfl⟩
      rw [List.getElem_zip]

theorem ofBe_u32Bytes {value : Nat} (fits : value < 2 ^ 32) : ofBe (u32Bytes value) = value :=
  ofBe_beBytes (by omega)

theorem length_u32Bytes (value : Nat) : (u32Bytes value).length = 4 := length_beBytes 4 value

/-- Parameters are decoded where they are the encoding of an id and a proof of the right length. -/
theorem decode_eq_some {p id mac : Bytes} :
    decodePipeTeardownParams p = some (id, mac) ↔
      id.length < 2 ^ 32 ∧ mac.length = teardownMacLen ∧ p = encodePipeTeardownParams id mac := by
  constructor
  · intro decoded
    unfold decodePipeTeardownParams at decoded
    dsimp only at decoded
    split at decoded
    · cases decoded
    · next long =>
      split at decoded
      · cases decoded
      · next enough =>
        split at decoded
        · cases decoded
        · next exact' =>
          cases decoded
          have four : (p.take 4).length = 4 := by
            rw [List.length_take]
            omega
          have small := ofBe_lt (p.take 4)
          rw [four] at small
          have size : ((p.drop 4).take (ofBe (p.take 4))).length = ofBe (p.take 4) := by
            rw [List.length_take]
            omega
          refine ⟨by rw [size]; exact small, not_ne_iff.mp exact', ?_⟩
          unfold encodePipeTeardownParams u32Bytes
          have bytes := beBytes_ofBe (p.take 4)
          rw [four] at bytes
          rw [size, bytes, List.append_assoc, List.take_append_drop, List.take_append_drop]
  · rintro ⟨small, length, rfl⟩
    have prefix4 := length_u32Bytes id.length
    unfold decodePipeTeardownParams encodePipeTeardownParams
    dsimp only
    rw [List.append_assoc, List.take_left' prefix4, List.drop_left' prefix4,
      ofBe_u32Bytes small, List.take_left' rfl, List.drop_left' rfl, if_neg, if_neg, if_neg]
    · rw [not_ne_iff]
      exact length
    · rw [List.length_append]
      omega
    · rw [List.length_append, prefix4]
      omega

/-! ### What is hashed -/

/-- Two length-prefixed fields agree only where the fields and what follows them do. -/
theorem lengthPrefixed_append {a b rest rest' : Bytes} (short : a.length < 2 ^ 32)
    (short' : b.length < 2 ^ 32) (same : lengthPrefixed a ++ rest = lengthPrefixed b ++ rest') :
    a = b ∧ rest = rest' := by
  unfold lengthPrefixed at same
  rw [List.append_assoc, List.append_assoc] at same
  have parts := List.append_inj same (by rw [length_u32Bytes, length_u32Bytes])
  have lengths : a.length = b.length := by
    rw [← ofBe_u32Bytes short, parts.1, ofBe_u32Bytes short']
  exact List.append_inj parts.2 lengths

/-- What one teardown is bound to. -/
structure Bound where
  key : Bytes
  target : Name
  op : PathOp
  seq : UInt64
  id : Bytes

def Bound.input (crypto : Crypto) (t : Bound) : Bytes :=
  macInput crypto t.key t.target t.op t.seq t.id

/-- The lengths that are written in four bytes fit in them. -/
structure Bound.Fits (crypto : Crypto) (t : Bound) : Prop where
  key : t.key.length < 2 ^ 32
  target : (crypto.encodeToTlv t.target).length < 2 ^ 32
  id : t.id.length < 2 ^ 32

/-- Names are encoded, and operations numbered, without loss. -/
structure Crypto.Faithful (crypto : Crypto) : Prop where
  names : Function.Injective crypto.encodeToTlv
  codes : Function.Injective crypto.opCode

variable {crypto : Crypto}

theorem input_injective (faithful : crypto.Faithful) {t t' : Bound} (fits : t.Fits crypto)
    (fits' : t'.Fits crypto) (same : t.input crypto = t'.input crypto) : t = t' := by
  unfold Bound.input macInput at same
  simp only [List.append_assoc] at same
  have keys := lengthPrefixed_append fits.key fits'.key (List.append_cancel_left same)
  have targets := lengthPrefixed_append fits.target fits'.target keys.2
  have ops := List.cons.inj targets.2
  have tails : beBytes 8 t.seq.toNat ++ lengthPrefixed t.id =
      beBytes 8 t'.seq.toNat ++ lengthPrefixed t'.id := ops.2
  have seqs := List.append_inj tails (by rw [length_beBytes, length_beBytes])
  have ids := seqs.2
  rw [← List.append_nil (lengthPrefixed t.id), ← List.append_nil (lengthPrefixed t'.id)] at ids
  have id := (lengthPrefixed_append fits.id fits'.id ids).1
  have seq : t.seq.toNat = t'.seq.toNat := by
    rw [← @ofBe_beBytes 8 t.seq.toNat t.seq.toNat_lt, seqs.1,
      @ofBe_beBytes 8 t'.seq.toNat t'.seq.toNat_lt]
  cases t
  cases t'
  simp only [Bound.mk.injEq]
  exact ⟨keys.1, faithful.names targets.1, faithful.codes ops.1, UInt64.toNat_inj.mp seq, id⟩

/-- The inputs of the hash at hand, of which no two have one digest. -/
structure Bound.Known (crypto : Crypto) (hashed : Set Bytes) (t : Bound) : Prop where
  fits : t.Fits crypto
  hashed : t.input crypto ∈ hashed

def Bound.mac (crypto : Crypto) (t : Bound) : Bytes :=
  teardownMac crypto t.key t.target t.op t.seq t.id

/-- A proof is good for one teardown only. -/
theorem mac_injective (faithful : crypto.Faithful) {hashed : Set Bytes}
    (free : Set.InjOn crypto.sha256 hashed) {t t' : Bound} (known : t.Known crypto hashed)
    (known' : t'.Known crypto hashed) (same : t.mac crypto = t'.mac crypto) : t = t' := by
  have digests : crypto.sha256 (t.input crypto) = crypto.sha256 (t'.input crypto) :=
    Vector.toList_inj.mp same
  exact input_injective faithful known.fits known'.fits
    (free known.hashed known'.hashed digests)

theorem length_mac (t : Bound) : (t.mac crypto).length = teardownMacLen := Vector.length_toList

/-! ### What a teardown does -/

/-- The parameters carry a proof of the key of a pipe that a node holds. -/
def Proven (crypto : Crypto) (pipeKey : Bytes → Option Bytes) (pc : PathControl) (params : Bytes)
    (id : Bytes) : Prop :=
  ∃ mac key, decodePipeTeardownParams params = some (id, mac) ∧ pipeKey id = some key ∧
    mac = teardownMac crypto key pc.target pc.op pc.seq id

section Nodes

variable {M : Type} {membership : PipeMembership M} {node : M} {pc : PathControl}

theorem verifyTeardown_iff {id mac : Bytes} :
    verifyTeardown crypto membership node pc id mac = true ↔
      ∃ key, membership.pipeKey node id = some key ∧
        mac = teardownMac crypto key pc.target pc.op pc.seq id := by
  unfold verifyTeardown
  split
  · next unknown =>
    rw [unknown]
    refine iff_of_false nofun ?_
    rintro ⟨key, held, _⟩
    cases held
  · next key held =>
    rw [ctEq_iff, held]
    simp only [Option.some.injEq, exists_eq_left']
    exact eq_comm

theorem authorize_iff {params : Bytes} :
    authorize crypto membership node pc (some params) = true ↔
      pc.op = .teardown ∧ ∃ id, Proven crypto (membership.pipeKey node) pc params id := by
  unfold authorize Proven
  split
  · next other => exact iff_of_false nofun fun both => other both.1
  · next teardown =>
    rw [not_ne_iff] at teardown
    rw [Option.bind_some, and_iff_right teardown]
    split
    · next undecoded =>
      refine iff_of_false nofun ?_
      rintro ⟨id, mac, key, decoded, _⟩
      rw [undecoded] at decoded
      cases decoded
    · next id mac decoded =>
      rw [verifyTeardown_iff]
      constructor
      · rintro ⟨key, held, same⟩
        exact ⟨id, mac, key, decoded, held, same⟩
      · rintro ⟨id', mac', key, decoded', held, same⟩
        rw [decoded, Option.some.injEq, Prod.mk.injEq] at decoded'
        rcases decoded' with ⟨rfl, rfl⟩
        exact ⟨key, held, same⟩

/-- Without a proof, nothing happens. -/
theorem onTeardown_unproven {params : Bytes}
    (unproven : ∀ id, ¬ Proven crypto (membership.pipeKey node) pc params id) :
    onTeardown crypto membership node pc params = node := by
  unfold onTeardown
  split
  · rfl
  · next id mac decoded =>
    split
    · next verified =>
      rcases verifyTeardown_iff.mp verified with ⟨key, held, same⟩
      exact absurd ⟨mac, key, decoded, held, same⟩ (unproven id)
    · rfl

theorem onTeardown_proven {params id : Bytes}
    (proven : Proven crypto (membership.pipeKey node) pc params id) :
    onTeardown crypto membership node pc params =
      match membership.reapAuthorized node id with
      | (reaped, some ns) => membership.suppressNamespace reaped ns
      | (reaped, none) => reaped := by
  rcases proven with ⟨mac, key, decoded, held, same⟩
  unfold onTeardown
  rw [decoded]
  dsimp only
  rw [if_pos (verifyTeardown_iff.mpr ⟨key, held, same⟩)]

end Nodes

/-- A relay drops the pipe, and marks those of its namespace as announced. -/
theorem relay_onTeardown {store : RelayPipeStore} {pc : PathControl} {params id : Bytes}
    (proven : Proven crypto store.pipeKey pc params id) :
    ∃ e, store.lookup id = some e ∧ ∀ other,
      (onTeardown crypto relayMembership store pc params).lookup other =
        if other = id then none
        else (store.lookup other).map fun f =>
          if f.ns = e.ns then { f with announced := true } else f := by
  have reaped := @onTeardown_proven _ _ relayMembership _ _ _ _ proven
  rcases proven with ⟨mac, key, _, held, _⟩
  rcases Option.map_eq_some_iff.mp held with ⟨e, found, _⟩
  refine ⟨e, found, ?_⟩
  intro other
  rw [reaped]
  simp only [relayMembership, RelayPipeStore.reapNow, found, Option.map_some,
    RelayPipeStore.suppress, HashMap.lookup_mapValues, HashMap.lookup_erase_eq]
  split
  · rfl
  · rfl

theorem registry_onTeardown {registry : PipeRegistry} {now : Nanos} {pc : PathControl}
    {params id : Bytes} (proven : Proven crypto (registry.pipeKey now) pc params id)
    (other : Bytes) :
    (onTeardown crypto (registryMembership now) registry pc params).lookup other =
      if other = id then none else registry.lookup other := by
  rw [@onTeardown_proven _ _ (registryMembership now) _ _ _ _ proven]
  exact HashMap.lookup_erase_eq registry id other

/-- The parameters of an emitted teardown prove its key, and no other one. -/
theorem proven_emitted (faithful : crypto.Faithful) {hashed : Set Bytes}
    (free : Set.InjOn crypto.sha256 hashed) (pipeKey : Bytes → Option Bytes) (ns : Name)
    (id key : Bytes) (seq : UInt64)
    (known : ∀ held, held = key ∨ pipeKey id = some held →
      Bound.Known crypto hashed ⟨held, pipeTeardownTarget ns id, .teardown, seq, id⟩) :
    (∃ id', Proven crypto pipeKey (pipeTeardownInterest crypto ns id key seq).1
      (pipeTeardownInterest crypto ns id key seq).2 id') ↔ pipeKey id = some key := by
  have emitted := known key (.inl rfl)
  have decoded : decodePipeTeardownParams (pipeTeardownInterest crypto ns id key seq).2 =
      some (id, Bound.mac crypto ⟨key, pipeTeardownTarget ns id, .teardown, seq, id⟩) :=
    decode_eq_some.mpr ⟨emitted.fits.id, length_mac _, rfl⟩
  constructor
  · rintro ⟨id', mac, held, decoded', holds, same⟩
    rw [decoded, Option.some.injEq, Prod.mk.injEq] at decoded'
    rcases decoded' with ⟨rfl, rfl⟩
    have bound := mac_injective faithful free emitted (known held (.inr holds)) same
    rw [holds, Option.some.injEq]
    exact (congrArg Bound.key bound).symm
  · intro holds
    exact ⟨id, _, key, decoded, holds, rfl⟩

/-- Whoever has no proof of its key tears no pipe down. The forwarder hands an observer only what the
authorizer let through; an observer itself does not look at the operation. -/
structure OnlyHoldersTearDown (crypto : Crypto) (hashed : Set Bytes) : Prop where
  authorizes : ∀ {M : Type} (membership : PipeMembership M) (node : M) (pc : PathControl)
    (params : Bytes), authorize crypto membership node pc (some params) = true ↔
      pc.op = .teardown ∧ ∃ id, Proven crypto (membership.pipeKey node) pc params id
  bare : ∀ {M : Type} (membership : PipeMembership M) (node : M) (pc : PathControl),
    authorize crypto membership node pc none = false
  refuses : ∀ {M : Type} (membership : PipeMembership M) (node : M) (pc : PathControl)
    (params : Bytes), (∀ id, ¬ Proven crypto (membership.pipeKey node) pc params id) →
      onTeardown crypto membership node pc params = node
  relay : ∀ (store : RelayPipeStore) (pc : PathControl) (params id : Bytes),
    Proven crypto store.pipeKey pc params id → ∃ e, store.lookup id = some e ∧
      ∀ other, (onTeardown crypto relayMembership store pc params).lookup other =
        if other = id then none
        else (store.lookup other).map fun f =>
          if f.ns = e.ns then { f with announced := true } else f
  producer : ∀ (registry : PipeRegistry) (now : Nanos) (pc : PathControl) (params id : Bytes),
    Proven crypto (registry.pipeKey now) pc params id → (∃ e, registry.lookup id = some e) ∧
      ∀ other, (onTeardown crypto (registryMembership now) registry pc params).lookup other =
        if other = id then none else registry.lookup other
  removes : ∀ (store : RelayPipeStore) (pc : PathControl) (params id : Bytes),
    (store.lookup id ≠ none ∧
      (onTeardown crypto relayMembership store pc params).lookup id = none) ↔
        Proven crypto store.pipeKey pc params id
  removesProduced : ∀ (registry : PipeRegistry) (now : Nanos) (pc : PathControl)
    (params id : Bytes), (registry.lookup id ≠ none ∧
      (onTeardown crypto (registryMembership now) registry pc params).lookup id = none) ↔
        Proven crypto (registry.pipeKey now) pc params id
  binds : ∀ t t' : Bound, t.Known crypto hashed → t'.Known crypto hashed →
    t.mac crypto = t'.mac crypto → t = t'
  emits : ∀ {M : Type} (membership : PipeMembership M) (node : M) (ns : Name) (id key : Bytes)
    (seq : UInt64), (∀ held, held = key ∨ membership.pipeKey node id = some held →
      Bound.Known crypto hashed ⟨held, pipeTeardownTarget ns id, .teardown, seq, id⟩) →
    (authorize crypto membership node (pipeTeardownInterest crypto ns id key seq).1
      (some (pipeTeardownInterest crypto ns id key seq).2) = true ↔
        membership.pipeKey node id = some key)

theorem relay_removes (store : RelayPipeStore) (pc : PathControl) (params id : Bytes) :
    (store.lookup id ≠ none ∧
      (onTeardown crypto relayMembership store pc params).lookup id = none) ↔
        Proven crypto store.pipeKey pc params id := by
  constructor
  · rintro ⟨held, gone⟩
    by_contra unproven
    by_cases other : ∃ id', Proven crypto store.pipeKey pc params id'
    · rcases other with ⟨id', proven⟩
      rcases relay_onTeardown proven with ⟨e, _, effect⟩
      have different : id ≠ id' := by
        rintro rfl
        exact unproven proven
      rw [effect, if_neg different, Option.map_eq_none_iff] at gone
      exact held gone
    · rw [@onTeardown_unproven _ _ relayMembership _ _ _ (not_exists.mp other)] at gone
      exact held gone
  · intro proven
    rcases relay_onTeardown proven with ⟨e, found, effect⟩
    exact ⟨by rw [found]; exact nofun, by rw [effect, if_pos rfl]⟩

theorem registry_removes (registry : PipeRegistry) (now : Nanos) (pc : PathControl)
    (params id : Bytes) :
    (registry.lookup id ≠ none ∧
      (onTeardown crypto (registryMembership now) registry pc params).lookup id = none) ↔
        Proven crypto (registry.pipeKey now) pc params id := by
  constructor
  · rintro ⟨held, gone⟩
    by_contra unproven
    by_cases other : ∃ id', Proven crypto (registry.pipeKey now) pc params id'
    · rcases other with ⟨id', proven⟩
      have different : id ≠ id' := by
        rintro rfl
        exact unproven proven
      rw [registry_onTeardown proven, if_neg different] at gone
      exact held gone
    · rw [onTeardown_unproven (not_exists.mp other)]
        at gone
      exact held gone
  · intro proven
    refine ⟨?_, by rw [registry_onTeardown proven, if_pos rfl]⟩
    intro absent
    rcases proven with ⟨mac, key, _, held, _⟩
    unfold PipeRegistry.pipeKey at held
    rw [absent] at held
    cases held

theorem only_holders_tear_down (crypto : Crypto) (faithful : crypto.Faithful) (hashed : Set Bytes)
    (free : Set.InjOn crypto.sha256 hashed) : OnlyHoldersTearDown crypto hashed where
  authorizes _ _ _ _ := authorize_iff
  bare membership node pc := by
    unfold authorize
    split <;> rfl
  refuses _ _ _ _ unproven := onTeardown_unproven unproven
  relay _ _ _ _ proven := relay_onTeardown proven
  producer registry now pc params id proven := by
    have held := ((registry_removes registry now pc params id).mpr proven).1
    exact ⟨Option.ne_none_iff_exists'.mp held, registry_onTeardown proven⟩
  removes := relay_removes
  removesProduced := registry_removes
  binds _ _ known known' same := mac_injective faithful free known known' same
  emits membership node ns id key seq known := by
    rw [authorize_iff, and_iff_right (by rfl)]
    exact proven_emitted faithful free (membership.pipeKey node) ns id key seq known

/-! ### One pipe -/

namespace Example

def ns : Name := ⟨[.generic [97]]⟩

def id : Bytes := [105]

def key : Bytes := [107]

def opCode : PathOp → UInt8
  | .redirect => 0
  | .refresh => 1
  | .teardown => 2

def encodeToTlv (name : Name) : Bytes := NdnTlv.writeTlv tlvName (NdnTlv.encodeName name)

def input (op : PathOp) : Bytes :=
  macInput ⟨fun _ => Vector.replicate 32 0, encodeToTlv, opCode⟩ key (pipeTeardownTarget ns id) op 9
    id

/-- The digests of the inputs for a teardown and for a redirect. -/
def sha256 (bytes : Bytes) : Vector UInt8 32 :=
  if bytes = input .teardown then
    #v[196, 3, 129, 99, 209, 236, 42, 232, 165, 206, 71, 187, 47, 39, 29, 115, 201, 201, 108,
    18, 54, 90, 63, 123, 173, 81, 78, 144, 158, 157, 216, 135]
  else if bytes = input .redirect then
    #v[136, 73, 192, 208, 51, 9, 67, 200, 21, 190, 150, 213, 241, 46, 96, 125, 11, 51, 203, 0,
    205, 238, 97, 107, 79, 191, 113, 32, 220, 128, 76, 17]
  else Vector.replicate 32 0

def oneCrypto : Crypto := ⟨sha256, encodeToTlv, opCode⟩

theorem oneCrypto_faithful : oneCrypto.Faithful where
  names := by
    intro name name' same
    have decoded := congrArg NdnTlv.decodeNameTlv same
    rw [show oneCrypto.encodeToTlv = encodeToTlv from rfl] at decoded
    unfold encodeToTlv at decoded
    rw [NdnTlv.decodeTlv_write, NdnTlv.decodeTlv_write, Option.some.injEq] at decoded
    exact decoded
  codes := by
    intro op op' same
    cases op <;> cases op' <;> first | rfl | cases same

def hashed : Set Bytes := {input .teardown, input .redirect}

theorem no_collision : Set.InjOn oneCrypto.sha256 hashed := by
  have different : oneCrypto.sha256 (input .teardown) ≠ oneCrypto.sha256 (input .redirect) := by
    decide +kernel
  intro left among right among' same
  rcases among with rfl | rfl <;> rcases among' with rfl | rfl
  · rfl
  · exact absurd same different
  · exact absurd same.symm different
  · rfl

theorem only_holders_tear_down_one : OnlyHoldersTearDown oneCrypto hashed :=
  only_holders_tear_down oneCrypto oneCrypto_faithful hashed no_collision

def store : RelayPipeStore := (∅ : RelayPipeStore).insert' 0 id ns 1 key 1000

/-- An observer that is handed a redirect with a proof over it tears the pipe down. -/
theorem observer_ignores_the_operation :
    let pc : PathControl := ⟨pipeTeardownTarget ns id, .redirect, 9⟩
    let params := encodePipeTeardownParams id (teardownMac oneCrypto key pc.target pc.op pc.seq id)
    pc.op ≠ .teardown ∧ store.lookup id ≠ none ∧
      (onTeardown oneCrypto relayMembership store pc params).lookup id = none := by
  decide +kernel

end Example

end NdnExt.Pipes
