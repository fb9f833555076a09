import NdnExt.Discovery.Calls
import Mathlib.Data.List.Dedup
import Mathlib.Data.List.Sort

/-! The directories of the providers of a service, in memory and from service discovery. -/

namespace NdnExt.Service

open NdnExt.Lib NdnExt.Discovery List ServiceDiscovery

inductive NamingConvention where
  | nodeScoped
  | forwardingHint
  deriving DecidableEq

structure ProviderEntry where
  callable : Name
  forwardingHint : Option Name
  rtt : Option Nanos

/-- Where a provider is called. -/
def ProviderEntry.address (entry : ProviderEntry) : Name × Option Name :=
  (entry.callable, entry.forwardingHint)

/-- A call of `advertise`, with the clock that stamps a record. -/
structure Advertisement where
  service : Name
  node : Name
  timestampMs : Nat

/-- `advertise` tells the name to serve under. -/
class ProviderDirectory (D : Type) where
  providers : D → Name → List ProviderEntry
  advertise : D → Advertisement → D × Name

export ProviderDirectory (providers advertise)

def appendService (base service : Name) : Name := service.components.foldl Name.appendComponent base

/-- The name to serve under, the callable and the hint. -/
def namesFor (convention : NamingConvention) (service node : Name) : Name × Name × Option Name :=
  match convention with
  | .nodeScoped => (appendService node service, appendService node service, none)
  | .forwardingHint => (service, service, some node)

/-! ### In memory -/

def maxProvidersPerService : Nat := 256

structure MemoryDirectory where
  convention : NamingConvention
  table : HashMap Name (List ProviderEntry)

namespace MemoryDirectory

def withConvention (convention : NamingConvention) : MemoryDirectory := ⟨convention, ∅⟩

/-- A provider that is new to the list goes last, and the oldest one makes room. -/
def put (entries : List ProviderEntry) (callable : Name) (hint : Option Name) :
    List ProviderEntry :=
  if entries.any fun e => e.callable = callable && e.forwardingHint = hint then entries
  else (if entries.length ≥ maxProvidersPerService then entries.drop 1 else entries) ++
    [⟨callable, hint, none⟩]

instance : ProviderDirectory MemoryDirectory where
  providers directory service := (directory.table.lookup service).getD []
  advertise directory ad :=
    let (serve, callable, hint) := namesFor directory.convention ad.service ad.node
    let entries := (directory.table.lookup ad.service).getD []
    ({ directory with table := directory.table.insert ad.service (put entries callable hint) },
      serve)

end MemoryDirectory

/-! ### From service discovery -/

structure ProviderMeasurement where
  nodeName : Name
  lastRtt : Option Nanos
  rttP50 : Option Nanos

/-- With what has been measured of the providers of each announced prefix. -/
structure ServiceDiscoveryDirectory where
  sd : ServiceDiscovery
  measurements : Name → List ProviderMeasurement
  convention : NamingConvention

def endsWith (name suffix : Name) : Bool :=
  let n := name.components
  let s := suffix.components
  s.length ≤ n.length && ((n.drop (n.length - s.length)).zip s).all fun both => both.1 = both.2

def stripSuffix (name suffix : Name) : Name :=
  if endsWith name suffix then
    ⟨name.components.take (name.components.length - suffix.components.length)⟩
  else name

/-- Measured providers come first, the fastest of them before the others. -/
def ranksBefore (left right : ProviderEntry) : Bool :=
  match left.rtt, right.rtt with
  | some x, some y => x ≤ y
  | some _, none => true
  | none, some _ => false
  | none, none => true

namespace ServiceDiscoveryDirectory

def withConvention (sd : ServiceDiscovery) (measurements : Name → List ProviderMeasurement)
    (convention : NamingConvention) : ServiceDiscoveryDirectory :=
  ⟨sd, measurements, convention⟩

def rttOf (directory : ServiceDiscoveryDirectory) (announced node : Name) : Option Nanos :=
  ((directory.measurements announced).find? fun m => m.nodeName = node).bind
    fun m => m.rttP50.or m.lastRtt

/-- The entry of a record, where the record is of the service. -/
def entryOf (directory : ServiceDiscoveryDirectory) (service : Name) (record : ServiceRecord) :
    Option ProviderEntry :=
  let rtt := directory.rttOf record.announcedPrefix record.nodeName
  match directory.convention with
  | .nodeScoped =>
    if endsWith record.announcedPrefix service then some ⟨record.announcedPrefix, none, rtt⟩
    else none
  | .forwardingHint =>
    if record.announcedPrefix.components = service.components then
      some ⟨service, some record.nodeName, rtt⟩
    else none

def announces (convention : NamingConvention) (service node : Name) : Name × Name :=
  match convention with
  | .nodeScoped =>
    let callable := appendService node service
    (callable, stripSuffix callable service)
  | .forwardingHint => (service, node)

def served (convention : NamingConvention) (service node : Name) : Name :=
  match convention with
  | .nodeScoped => appendService node service
  | .forwardingHint => service

instance : ProviderDirectory ServiceDiscoveryDirectory where
  providers directory service :=
    (directory.sd.allRecords.filterMap (directory.entryOf service)).insertionSort
      fun left right => ranksBefore left right
  advertise directory ad :=
    let (announced, nodeName) := announces directory.convention ad.service ad.node
    ({ directory with
        sd := directory.sd.publish (.new announced nodeName) ad.timestampMs },
      served directory.convention ad.service ad.node)

end ServiceDiscoveryDirectory

/-! ### Listing -/

section Listing

variable {D : Type} [ProviderDirectory D]

def advertiseAll (directory : D) (ads : List Advertisement) : D :=
  ads.foldl (fun directory ad => (advertise directory ad).1) directory

/-- The nodes that advertise the service, each with the name it is told to serve under. -/
def told (service : Name) : D → List Advertisement → List (Name × Name)
  | _, [] => []
  | directory, ad :: rest =>
    let next := told service (advertise directory ad).1 rest
    if ad.service = service then (ad.node, (advertise directory ad).2) :: next else next

def hintFor (convention : NamingConvention) (node : Name) : Option Name :=
  match convention with
  | .nodeScoped => none
  | .forwardingHint => some node

/-- Every node that advertised the service is listed once, under the name it was told, and no
other one is. -/
def ListsExactly (convention : NamingConvention) (directory : D) (ads : List Advertisement)
    (service : Name) : Prop :=
  ((providers (advertiseAll directory ads) service).map ProviderEntry.address).Perm
    ((told service directory ads).dedup.map fun node => (node.2, hintFor convention node.1))

end Listing

/-! ### Names -/

theorem components_appendService (base service : Name) :
    (appendService base service).components = base.components ++ service.components := by
  have appended : ∀ (more : List NameComponent) (name : Name),
      (more.foldl Name.appendComponent name).components = name.components ++ more := by
    intro more
    induction more with
    | nil => exact fun name => (append_nil _).symm
    | cons component rest ih =>
      intro name
      rw [foldl_cons, ih, Name.appendComponent, append_assoc]
      rfl
  exact appended service.components base

variable {node service : Name} {ads : List Advertisement} {nodes : List Name}

theorem appendService_left_inj {node' : Name} :
    appendService node service = appendService node' service ↔ node = node' := by
  rw [← Name.components_injective.eq_iff, components_appendService, components_appendService,
    append_left_inj, Name.components_injective.eq_iff]

theorem appendService_right_inj {service' : Name} :
    appendService node service = appendService node service' ↔ service = service' := by
  rw [← Name.components_injective.eq_iff, components_appendService, components_appendService,
    append_right_inj, Name.components_injective.eq_iff]

theorem zip_all_same {A : Type} [DecidableEq A] {xs ys : List A} (even : xs.length = ys.length) :
    ((xs.zip ys).all fun both => both.1 = both.2) = true ↔ xs = ys := by
  induction xs generalizing ys with
  | nil => simp [length_eq_zero_iff.mp even.symm]
  | cons x xs ih =>
    cases ys with
    | nil => cases even
    | cons y ys => simp [ih (Nat.succ_inj.mp even)]

theorem endsWith_iff {name suffix : Name} :
    endsWith name suffix = true ↔ ∃ base, name = appendService base suffix := by
  unfold endsWith
  simp only [Bool.and_eq_true, decide_eq_true_eq]
  constructor
  · rintro ⟨long, same⟩
    have even : (name.components.drop (name.components.length - suffix.components.length)).length =
        suffix.components.length := by
      rw [length_drop]
      omega
    have tail := (zip_all_same even).mp same
    refine ⟨⟨name.components.take (name.components.length - suffix.components.length)⟩, ?_⟩
    apply Name.components_injective
    rw [components_appendService]
    nth_rewrite 2 [← tail]
    exact (take_append_drop _ _).symm
  · rintro ⟨base, rfl⟩
    rw [components_appendService, length_append]
    refine ⟨Nat.le_add_left _ _, ?_⟩
    rw [Nat.add_sub_cancel, drop_left]
    exact (zip_all_same rfl).mpr rfl

theorem stripSuffix_appendService (node service : Name) :
    stripSuffix (appendService node service) service = node := by
  unfold stripSuffix
  rw [if_pos (endsWith_iff.mpr ⟨node, rfl⟩)]
  apply Name.components_injective
  rw [components_appendService, length_append, Nat.add_sub_cancel, take_left]

/-! ### What is advertised -/

/-- Where a node that advertises the service is to be called. -/
def calledAt (convention : NamingConvention) (service node : Name) : Name × Option Name :=
  match convention with
  | .nodeScoped => (appendService node service, none)
  | .forwardingHint => (service, some node)

theorem calledAt_inj {convention : NamingConvention} {node' : Name}
    (same : calledAt convention service node = calledAt convention service node') :
    node = node' := by
  cases convention with
  | nodeScoped => exact appendService_left_inj.mp (congrArg Prod.fst same)
  | forwardingHint => exact Option.some.inj (congrArg Prod.snd same)

def nodesOf (ads : List Advertisement) (service : Name) : List Name :=
  ((ads.filter fun ad => ad.service = service).map Advertisement.node).dedup

theorem mem_nodesOf :
    node ∈ nodesOf ads service ↔ ∃ ad ∈ ads, ad.service = service ∧ ad.node = node := by
  simp [nodesOf, and_assoc]

section Told

variable {D : Type} [ProviderDirectory D]

/-- What is `holds` stays so, and has the nodes serve under the convention's name. -/
structure Tells (holds : D → Prop) (convention : NamingConvention) : Prop where
  keeps : ∀ directory ad, holds directory → holds (advertise directory ad).1
  tells : ∀ directory ad, holds directory →
    ((advertise directory ad).2, hintFor convention ad.node) =
      calledAt convention ad.service ad.node

variable {holds : D → Prop} {convention : NamingConvention} {directory : D}

theorem told_eq (tells : Tells holds convention) (service : Name) (begins : holds directory)
    (ads : List Advertisement) :
    told service directory ads = ((ads.filter fun ad => ad.service = service).map
      Advertisement.node).map fun node => (node, (calledAt convention service node).1) := by
  induction ads generalizing directory with
  | nil => rfl
  | cons ad rest ih =>
    have name := congrArg Prod.fst (tells.tells directory ad begins)
    have later := ih (tells.keeps directory ad begins)
    rw [told, later, filter_cons]
    by_cases same : ad.service = service
    · subst same
      simp only [if_true, decide_true, map_cons]
      rw [← name]
    · simp [same]

theorem calledAt_hint (convention : NamingConvention) (service node : Name) :
    ((calledAt convention service node).1, hintFor convention node) =
      calledAt convention service node := by
  cases convention <;> rfl

/-- The addresses of the nodes that advertised the service, once each. -/
structure Exact (convention : NamingConvention) (ads : List Advertisement) (service : Name)
    (addresses : List (Name × Option Name)) : Prop where
  once : addresses.Nodup
  listed : ∀ address, address ∈ addresses ↔
    ∃ ad ∈ ads, ad.service = service ∧ calledAt convention service ad.node = address

theorem exact_nodesOf (convention : NamingConvention) (ads : List Advertisement) (service : Name) :
    Exact convention ads service ((nodesOf ads service).map (calledAt convention service)) := by
  refine ⟨(nodup_dedup _).map (fun _ _ => calledAt_inj), ?_⟩
  intro address
  simp only [mem_map, mem_nodesOf]
  constructor
  · rintro ⟨_, ⟨ad, among, same, rfl⟩, called⟩
    exact ⟨ad, among, same, called⟩
  · rintro ⟨ad, among, same, called⟩
    exact ⟨ad.node, ⟨ad, among, same, rfl⟩, called⟩

theorem exact_iff_perm
    {addresses : List (Name × Option Name)} :
    addresses.Perm ((nodesOf ads service).map (calledAt convention service)) ↔
      Exact convention ads service addresses := by
  have expected := exact_nodesOf convention ads service
  constructor
  · intro perm
    refine ⟨perm.nodup_iff.mpr expected.once, ?_⟩
    intro address
    rw [perm.mem_iff, expected.listed]
  · intro exact'
    rw [perm_ext_iff_of_nodup exact'.once expected.once]
    intro address
    rw [exact'.listed, expected.listed]

section Extended

variable {ads : List Advertisement} {ad : Advertisement} {service : Name}
  {addresses : List (Name × Option Name)}

theorem Exact.other (exact' : Exact convention ads service addresses)
    (different : ad.service ≠ service) : Exact convention (ads ++ [ad]) service addresses := by
  refine ⟨exact'.once, ?_⟩
  intro address
  rw [exact'.listed]
  simp [or_and_right, exists_or, different]

theorem Exact.again (exact' : Exact convention ads ad.service addresses)
    (member : calledAt convention ad.service ad.node ∈ addresses) :
    Exact convention (ads ++ [ad]) ad.service addresses := by
  refine ⟨exact'.once, ?_⟩
  intro address
  obtain ⟨earlier, among, same, called⟩ := (exact'.listed _).mp member
  rw [exact'.listed]
  constructor
  · rintro ⟨other, listed, rest⟩
    exact ⟨other, mem_append_left _ listed, rest⟩
  · rintro ⟨other, listed, agrees, rfl⟩
    rcases mem_append.mp listed with before | now
    · exact ⟨other, before, agrees, rfl⟩
    · cases mem_singleton.mp now
      exact ⟨earlier, among, same, called⟩

theorem Exact.new (exact' : Exact convention ads ad.service addresses)
    (absent : calledAt convention ad.service ad.node ∉ addresses) :
    Exact convention (ads ++ [ad]) ad.service
      (addresses ++ [calledAt convention ad.service ad.node]) := by
  constructor
  · rw [nodup_append']
    refine ⟨exact'.once, nodup_singleton _, ?_⟩
    intro address earlier now
    cases mem_singleton.mp now
    exact absent earlier
  · intro address
    rw [mem_append, exact'.listed, mem_singleton]
    constructor
    · rintro (⟨other, listed, rest⟩ | rfl)
      · exact ⟨other, mem_append_left _ listed, rest⟩
      · exact ⟨ad, mem_append_right _ (mem_singleton_self _), rfl, rfl⟩
    · rintro ⟨other, listed, rest⟩
      rcases mem_append.mp listed with before | now
      · exact Or.inl ⟨other, before, rest⟩
      · cases mem_singleton.mp now
        exact Or.inr rest.2.symm

/-- As many addresses as nodes. -/
theorem Exact.length_le (exact' : Exact convention ads service addresses)
    (among : ∀ ad ∈ ads, ad.service = service → ad.node ∈ nodes) :
    addresses.length ≤ nodes.length := by
  have subset : addresses ⊆ nodes.map (calledAt convention service) := by
    intro address member
    obtain ⟨ad, listed, same, rfl⟩ := (exact'.listed address).mp member
    exact mem_map_of_mem (among ad listed same)
  calc addresses.length
      ≤ (nodes.map (calledAt convention service)).length :=
        (subperm_of_subset exact'.once subset).length_le
    _ = nodes.length := length_map _

end Extended

theorem listsExactly_iff (tells : Tells holds convention) (begins : holds directory)
    (ads : List Advertisement) (service : Name) :
    ListsExactly convention directory ads service ↔ Exact convention ads service
      ((providers (advertiseAll directory ads) service).map ProviderEntry.address) := by
  have injective : Function.Injective
      fun node => (node, (calledAt convention service node).1) :=
    fun _ _ same => congrArg Prod.fst same
  have expected : ((told service directory ads).dedup.map
      fun node => (node.2, hintFor convention node.1)) =
        (nodesOf ads service).map (calledAt convention service) := by
    rw [told_eq tells service begins ads, dedup_map_of_injective injective, map_map]
    exact map_congr_left (fun node _ => calledAt_hint convention service node)
  rw [ListsExactly, expected, exact_iff_perm]

end Told

/-! ### The directory in memory -/

namespace MemoryDirectory

variable {convention : NamingConvention}

theorem tells (convention : NamingConvention) :
    Tells (fun directory : MemoryDirectory => directory.convention = convention) convention := by
  constructor
  · intro directory ad same
    exact same
  · rintro directory ad rfl
    change ((namesFor directory.convention ad.service ad.node).1, _) = _
    cases directory.convention <;> rfl

/-- One more provider, while there is room. -/
theorem address_put {entries : List ProviderEntry} {address : Name × Option Name}
    (room : address ∉ entries.map ProviderEntry.address →
      entries.length < maxProvidersPerService) :
    (put entries address.1 address.2).map ProviderEntry.address =
      if address ∈ entries.map ProviderEntry.address then entries.map ProviderEntry.address
      else entries.map ProviderEntry.address ++ [address] := by
  have known : (entries.any fun e => e.callable = address.1 && e.forwardingHint = address.2) =
      true ↔ address ∈ entries.map ProviderEntry.address := by
    simp [ProviderEntry.address, Prod.ext_iff]
  unfold put
  by_cases member : address ∈ entries.map ProviderEntry.address
  · rw [if_pos (known.mpr member), if_pos member]
  · have space := room member
    rw [if_neg (fun found => member (known.mp found)), if_neg member, if_neg (by omega),
      map_append]
    rfl

theorem providers_advertise (directory : MemoryDirectory) (ad : Advertisement) (service : Name) :
    providers (advertise directory ad).1 service =
      if service = ad.service then
        put (providers directory service) (calledAt directory.convention ad.service ad.node).1
          (calledAt directory.convention ad.service ad.node).2
      else providers directory service := by
  have names : (namesFor directory.convention ad.service ad.node).2 =
      calledAt directory.convention ad.service ad.node := by
    cases directory.convention <;> rfl
  rw [← names]
  change ((directory.table.insert ad.service _).lookup service).getD [] = _
  rw [HashMap.lookup_insert_eq]
  split
  · next same => rw [same]; rfl
  · rfl

theorem exact_advertise {directory : MemoryDirectory} (same : directory.convention = convention)
    (few : nodes.length ≤ maxProvidersPerService) {ad : Advertisement}
    (among : ∀ other ∈ ads ++ [ad], other.service = service → other.node ∈ nodes)
    (listed : Exact convention ads service
      ((providers directory service).map ProviderEntry.address)) :
    Exact convention (ads ++ [ad]) service
      ((providers (advertise directory ad).1 service).map ProviderEntry.address) := by
  subst same
  rw [providers_advertise]
  by_cases asked : service = ad.service
  · subst asked
    rw [if_pos rfl]
    have room : calledAt directory.convention ad.service ad.node ∉
        (providers directory ad.service).map ProviderEntry.address →
          (providers directory ad.service).length < maxProvidersPerService := by
      intro absent
      have longer := (listed.new absent).length_le among
      rw [length_append, length_map, length_singleton] at longer
      omega
    rw [address_put room]
    split
    · next member => exact listed.again member
    · next absent => exact listed.new absent
  · rw [if_neg asked]
    exact listed.other (Ne.symm asked)

theorem exact_advertiseAll
    (few : nodes.length ≤ maxProvidersPerService)
    (among : ∀ ad ∈ ads, ad.service = service → ad.node ∈ nodes) :
    (advertiseAll (withConvention convention) ads).convention = convention ∧
      Exact convention ads service
        ((providers (advertiseAll (withConvention convention) ads) service).map
          ProviderEntry.address) := by
  induction ads using List.reverseRecOn with
  | nil => exact ⟨rfl, nodup_nil, by simp [advertiseAll, withConvention, providers]⟩
  | append_singleton earlier ad ih =>
    obtain ⟨same, listed⟩ := ih (fun other member => among other (mem_append_left _ member))
    have stepped : advertiseAll (withConvention convention) (earlier ++ [ad]) =
        (advertise (advertiseAll (withConvention convention) earlier) ad).1 :=
      foldl_append
    rw [stepped]
    exact ⟨same, exact_advertise same few among listed⟩

/-- While the providers of a service fit, they are listed exactly. -/
theorem listsExactly {ads : List Advertisement} {service : Name}
    (few : (nodesOf ads service).length ≤ maxProvidersPerService) :
    ListsExactly convention (withConvention convention) ads service := by
  refine (listsExactly_iff (tells convention) rfl ads service).mpr
    (exact_advertiseAll few ?_).2
  intro ad member same
  exact mem_nodesOf.mpr ⟨ad, member, same, rfl⟩

end MemoryDirectory

/-! ### The directory from service discovery -/

namespace ServiceDiscoveryDirectory

variable {convention : NamingConvention}

theorem tells (convention : NamingConvention) :
    Tells (fun directory : ServiceDiscoveryDirectory => directory.convention = convention)
      convention := by
  constructor
  · intro directory ad same
    exact same
  · rintro directory ad rfl
    change (served directory.convention ad.service ad.node, _) = _
    cases directory.convention <;> rfl

theorem announces_eq (convention : NamingConvention) (service node : Name) :
    announces convention service node = ((calledAt convention service node).1, node) := by
  cases convention with
  | nodeScoped => exact congrArg _ (stripSuffix_appendService node service)
  | forwardingHint => rfl

theorem announces_inj {service' node' : Name}
    (same : announces convention service node = announces convention service' node') :
    service = service' := by
  rw [announces_eq, announces_eq, Prod.mk.injEq] at same
  obtain ⟨called, rfl⟩ := same
  cases convention with
  | nodeScoped => exact appendService_right_inj.mp called
  | forwardingHint => exact called

/-! #### Records -/

theorem updated_putLocal {records : List RecordEntry} (entry : RecordEntry)
    (distinct : Keyed.Distinct (fun entry : RecordEntry => entry.record.pair) records) :
    Keyed.Updated (fun entry : RecordEntry => entry.record.pair) records
      (putLocal records entry) entry.record.pair (some entry) := by
  have found : (records.findIdx? fun e => samePair e.record entry.record) =
      Keyed.position (fun entry : RecordEntry => entry.record.pair) records entry.record.pair := by
    congr 1
    funext other
    exact Bool.eq_iff_iff.mpr (samePair_iff.trans decide_eq_true_iff.symm)
  unfold putLocal
  rw [found]
  cases position : Keyed.position (fun entry : RecordEntry => entry.record.pair) records
      entry.record.pair with
  | none => exact Keyed.updated_append distinct (Keyed.entry_of_no_position position)
  | some i => exact Keyed.updated_set distinct position rfl

def pairs (directory : ServiceDiscoveryDirectory) : List (Name × Name) :=
  directory.sd.localRecords.map fun entry => entry.record.pair

/-- The directory has published a record for each advertisement, and knows of no other one. -/
structure Published (convention : NamingConvention) (ads : List Advertisement)
    (directory : ServiceDiscoveryDirectory) : Prop where
  same : directory.convention = convention
  alone : directory.sd.peerRecords = []
  distinct : directory.pairs.Nodup
  records : ∀ pair, pair ∈ directory.pairs ↔
    ∃ ad ∈ ads, announces convention ad.service ad.node = pair

variable {directory : ServiceDiscoveryDirectory}

theorem Published.advertise
    (published : Published convention ads directory) (ad : Advertisement) :
    Published convention (ads ++ [ad]) (advertise directory ad).1 := by
  obtain ⟨rfl, alone, distinct, records⟩ := published
  have updated := updated_putLocal
    ⟨{ ServiceRecord.new (announces directory.convention ad.service ad.node).1
        (announces directory.convention ad.service ad.node).2 with version := ad.timestampMs },
      ad.timestampMs, none, none⟩ distinct
  refine ⟨rfl, alone, updated.distinct, ?_⟩
  intro pair
  refine (updated.mem_keys pair).trans ?_
  change pair = announces directory.convention ad.service ad.node ∨ pair ∈ directory.pairs ↔ _
  rw [records]
  constructor
  · rintro (rfl | ⟨earlier, listed, same⟩)
    · exact ⟨ad, mem_append_right _ (mem_singleton_self _), rfl⟩
    · exact ⟨earlier, mem_append_left _ listed, same⟩
  · rintro ⟨other, listed, same⟩
    rcases mem_append.mp listed with before | now
    · exact Or.inr ⟨other, before, same⟩
    · cases mem_singleton.mp now
      exact Or.inl same.symm

theorem published_advertiseAll (measurements : Name → List ProviderMeasurement)
    (ads : List Advertisement) :
    Published convention ads (advertiseAll (withConvention .new measurements convention) ads) := by
  induction ads using List.reverseRecOn with
  | nil => exact ⟨rfl, rfl, nodup_nil, by simp [advertiseAll, withConvention, pairs,
      new]⟩
  | append_singleton earlier ad ih =>
    have stepped : advertiseAll (withConvention .new measurements convention) (earlier ++ [ad]) =
        (NdnExt.Service.advertise
          (advertiseAll (withConvention .new measurements convention) earlier) ad).1 :=
      foldl_append
    rw [stepped]
    exact ih.advertise ad

/-! #### Entries -/

/-- Whether a record under this pair is taken for one of the service. -/
def recordMatches (convention : NamingConvention) (service : Name) (pair : Name × Name) : Bool :=
  match convention with
  | .nodeScoped => endsWith pair.1 service
  | .forwardingHint => pair.1 = service

def addressOf (convention : NamingConvention) (pair : Name × Name) : Name × Option Name :=
  (pair.1, hintFor convention pair.2)

theorem address_entryOf (directory : ServiceDiscoveryDirectory) (service : Name)
    (record : ServiceRecord) :
    (directory.entryOf service record).map ProviderEntry.address =
      if recordMatches directory.convention service record.pair then
        some (addressOf directory.convention record.pair)
      else none := by
  unfold entryOf recordMatches addressOf hintFor
  cases directory.convention with
  | nodeScoped => exact apply_ite (Option.map ProviderEntry.address) _ _ _
  | forwardingHint =>
    have names : record.announcedPrefix.components = service.components ↔
        record.announcedPrefix = service := Name.components_injective.eq_iff
    by_cases same : record.announcedPrefix = service
    · subst same
      simp [ProviderEntry.address, ServiceRecord.pair]
    · simp [names, same, ServiceRecord.pair]

theorem filterMap_ite {A B : Type} (test : A → Bool) (f : A → B) (items : List A) :
    (items.filterMap fun item => if test item then some (f item) else none) =
      (items.filter test).map f := by
  induction items with
  | nil => rfl
  | cons item rest ih =>
    rw [filterMap_cons, filter_cons, ih]
    cases test item <;> rfl

theorem addresses_perm
    (published : Published convention ads directory) (service : Name) :
    ((providers directory service).map ProviderEntry.address).Perm
      ((directory.pairs.filter (recordMatches convention service)).map (addressOf convention)) := by
  have all : directory.sd.allRecords = directory.sd.localRecords.map RecordEntry.record := by
    rw [allRecords, published.alone]
    rfl
  have sorted : (providers directory service).Perm
      (directory.sd.allRecords.filterMap (directory.entryOf service)) :=
    perm_insertionSort _ _
  have unsorted : (directory.sd.allRecords.filterMap (directory.entryOf service)).map
      ProviderEntry.address =
        (directory.pairs.filter (recordMatches convention service)).map (addressOf convention) := by
    rw [map_filterMap, ← filterMap_ite, all, pairs, filterMap_map, filterMap_map,
      ← published.same]
    exact filterMap_congr (fun entry _ => address_entryOf directory service entry.record)
  rw [← unsorted]
  exact sorted.map _

theorem matches_announces (convention : NamingConvention) (service node : Name) :
    recordMatches convention service (announces convention service node) = true := by
  cases convention with
  | nodeScoped => exact endsWith_iff.mpr ⟨node, rfl⟩
  | forwardingHint => exact decide_eq_true rfl

theorem addressOf_announces (convention : NamingConvention) (service node : Name) :
    addressOf convention (announces convention service node) =
      calledAt convention service node := by
  rw [announces_eq, addressOf, calledAt_hint]

/-- Of the records that match, each is one of the service. -/
theorem exact_iff
    (published : Published convention ads directory) (service : Name) :
    Exact convention ads service
        ((directory.pairs.filter (recordMatches convention service)).map (addressOf convention)) ↔
      ∀ ad ∈ ads,
        recordMatches convention service (announces convention ad.service ad.node) = true →
          ad.service = service := by
  have distinct : (directory.pairs.filter (recordMatches convention service)).Nodup :=
    published.distinct.filter _
  have kept : ∀ ad ∈ ads,
      recordMatches convention service (announces convention ad.service ad.node) →
      announces convention ad.service ad.node ∈
        directory.pairs.filter (recordMatches convention service) := by
    intro ad listed found'
    exact mem_filter.mpr ⟨(published.records _).mpr ⟨ad, listed, rfl⟩, found'⟩
  constructor
  · intro exact' ad listed found'
    have alone := (nodup_map_iff_inj_on distinct).mp exact'.once
    have member := kept ad listed found'
    obtain ⟨owner, among, same, called⟩ := (exact'.listed _).mp (mem_map_of_mem member)
    subst same
    rw [← addressOf_announces] at called
    have owned := kept owner among (matches_announces _ _ _)
    exact (announces_inj (alone _ owned _ member called)).symm
  · intro own
    have its : ∀ pair ∈ directory.pairs.filter (recordMatches convention service),
        ∃ ad ∈ ads, ad.service = service ∧ announces convention service ad.node = pair := by
      intro pair member
      obtain ⟨published', found'⟩ := mem_filter.mp member
      obtain ⟨ad, listed, rfl⟩ := (published.records pair).mp published'
      have same := own ad listed found'
      exact ⟨ad, listed, same, by rw [same]⟩
    constructor
    · rw [nodup_map_iff_inj_on distinct]
      intro pair member pair' member' same
      obtain ⟨ad, _, _, rfl⟩ := its pair member
      obtain ⟨ad', _, _, rfl⟩ := its pair' member'
      rw [addressOf_announces, addressOf_announces] at same
      rw [calledAt_inj same]
    · intro address
      rw [mem_map]
      constructor
      · rintro ⟨pair, member, rfl⟩
        obtain ⟨ad, listed, same, rfl⟩ := its pair member
        exact ⟨ad, listed, same, (addressOf_announces _ _ _).symm⟩
      · rintro ⟨ad, listed, same, rfl⟩
        subst same
        exact ⟨_, kept ad listed (matches_announces _ _ _), addressOf_announces _ _ _⟩

end ServiceDiscoveryDirectory

/-! ### Both directories -/

/-- No name that a node announces for another service ends with this one. -/
def Apart (convention : NamingConvention) (ads : List Advertisement) (service : Name) : Prop :=
  convention = .nodeScoped → ∀ ad ∈ ads, ad.service ≠ service →
    endsWith (appendService ad.node ad.service) service = false

theorem apart_iff {convention : NamingConvention} :
    Apart convention ads service ↔ ∀ ad ∈ ads,
      ServiceDiscoveryDirectory.recordMatches convention service
        (ServiceDiscoveryDirectory.announces convention ad.service ad.node) = true →
          ad.service = service := by
  unfold Apart
  cases convention with
  | nodeScoped =>
    rw [imp_iff_right rfl]
    apply forall₂_congr
    intro ad _
    rw [← not_imp_not, not_not, Bool.not_eq_false]
    rfl
  | forwardingHint =>
    refine iff_of_true (by intro impossible; cases impossible) ?_
    intro ad _ same
    exact of_decide_eq_true same

/-- Both directories list exactly the providers of a service, and the same ones. -/
structure ListProviders (convention : NamingConvention)
    (measurements : Name → List ProviderMeasurement) (ads : List Advertisement)
    (service : Name) : Prop where
  memory : ListsExactly convention (MemoryDirectory.withConvention convention) ads service
  discovery : ListsExactly convention
    (ServiceDiscoveryDirectory.withConvention .new measurements convention) ads service
  same : ∀ address,
    address ∈ (providers (advertiseAll (MemoryDirectory.withConvention convention) ads)
        service).map ProviderEntry.address ↔
      address ∈ (providers (advertiseAll
        (ServiceDiscoveryDirectory.withConvention .new measurements convention) ads) service).map
          ProviderEntry.address

/-- With room for the providers of the service, both directories list exactly them just where no
other service is announced under a name that ends with this one. -/
theorem list_providers_iff (convention : NamingConvention)
    (measurements : Name → List ProviderMeasurement) (ads : List Advertisement) (service : Name)
    (few : (nodesOf ads service).length ≤ maxProvidersPerService) :
    ListProviders convention measurements ads service ↔ Apart convention ads service := by
  have published := @ServiceDiscoveryDirectory.published_advertiseAll convention measurements ads
  have discovery : ListsExactly convention
      (ServiceDiscoveryDirectory.withConvention .new measurements convention) ads service ↔
        Apart convention ads service := by
    rw [apart_iff, ← ServiceDiscoveryDirectory.exact_iff published service,
      listsExactly_iff (ServiceDiscoveryDirectory.tells convention) rfl ads service,
      ← exact_iff_perm, ← exact_iff_perm]
    exact ⟨(ServiceDiscoveryDirectory.addresses_perm published service).symm.trans,
      (ServiceDiscoveryDirectory.addresses_perm published service).trans⟩
  constructor
  · exact fun lists => discovery.mp lists.discovery
  · intro apart
    have memory := @MemoryDirectory.listsExactly convention ads service few
    have listed := (listsExactly_iff (MemoryDirectory.tells convention) rfl ads service).mp memory
    have found := (listsExactly_iff (ServiceDiscoveryDirectory.tells convention) rfl ads
      service).mp (discovery.mpr apart)
    refine ⟨memory, discovery.mpr apart, ?_⟩
    intro address
    rw [listed.listed, found.listed]

/-- `/n` offers `/b` and `/m` offers `/c`. -/
theorem list_providers_two :
    (nodesOf [⟨.single 98, .single 110, 1⟩, ⟨.single 99, .single 109, 2⟩] (.single 98)).length ≤
        maxProvidersPerService ∧
      ListProviders .nodeScoped (fun _ => [])
        [⟨.single 98, .single 110, 1⟩, ⟨.single 99, .single 109, 2⟩] (.single 98) := by
  have few : (nodesOf [⟨.single 98, .single 110, 1⟩, ⟨.single 99, .single 109, 2⟩]
      (.single 98)).length ≤ maxProvidersPerService := by decide
  refine ⟨few, (list_providers_iff _ _ _ _ few).mpr ?_⟩
  intro _ ad member
  simp only [List.mem_cons, List.not_mem_nil, or_false] at member
  rcases member with rfl | rfl
  · exact fun other => absurd rfl other
  · exact fun _ => by decide

/-- `/n` offers `/a/b` alone, and is listed for `/b`. -/
theorem longer_service_listed : ¬∀ (convention : NamingConvention)
    (measurements : Name → List ProviderMeasurement) (ads : List Advertisement) (service : Name),
    (nodesOf ads service).length ≤ maxProvidersPerService →
      ListProviders convention measurements ads service := by
  intro all
  have lists := all .nodeScoped (fun _ => [])
    [⟨⟨[.generic [97], .generic [98]]⟩, .single 110, 1⟩] (.single 98) (by decide)
  have listed := lists.discovery.length_eq
  revert listed
  decide

end NdnExt.Service
