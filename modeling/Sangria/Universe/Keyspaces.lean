import Sangria.Common.Types

/-!
# Keyspaces of the universe

The messages of the universe, `UniverseServer::create_keyspace` and the rows of
`atomix.keyspaces`.  An empty bound stands for an unbounded end of a range.
-/

namespace Sangria.Universe

structure KeyRangeRequest where
  lowerBoundInclusive : Bytes
  upperBoundExclusive : Bytes
  deriving DecidableEq

structure KeyRange where
  baseRangeUuid : Uuid
  lowerBoundInclusive : Bytes
  upperBoundExclusive : Bytes
  deriving DecidableEq

def keyRangeFrom (range : KeyRange) : Sangria.KeyRange :=
  ⟨some range.lowerBoundInclusive, some range.upperBoundExclusive⟩

structure Zone where
  region : Option Region
  name : String
  deriving DecidableEq

structure CreateKeyspaceRequest where
  keyspace : Keyspace
  primaryZone : Option Zone
  baseKeyRanges : List KeyRangeRequest

structure KeyspaceInfo where
  keyspaceId : KeyspaceId
  keyspace : Keyspace
  primaryZone : Option Zone
  baseKeyRanges : List KeyRange
  deriving DecidableEq

structure SerializedRegion where
  name : String
  cloud : Option String

structure SerializedZone where
  region : Option SerializedRegion
  name : String

structure SerializedKeyRange where
  baseRangeUuid : Uuid
  lowerBoundInclusive : Option Bytes
  upperBoundExclusive : Option Bytes

structure SerializedKeyspaceInfo where
  keyspaceId : KeyspaceId
  keyspace : Keyspace
  primaryZone : SerializedZone
  baseKeyRanges : List SerializedKeyRange

def serializeCloud : Cloud → String
  | .aws => "AWS"
  | .azure => "AZURE"
  | .gcp => "GCP"
  | .other name => name

def deserializeCloud (column : String) : Cloud :=
  if column = "AWS" then .aws
  else if column = "AZURE" then .azure
  else if column = "GCP" then .gcp
  else .other column

namespace SerializedKeyspaceInfo

def constructFromParts (keyspaceId : KeyspaceId) (keyspace : Keyspace) (primaryZone : Zone)
    (baseKeyRangeRequests : List KeyRange) : SerializedKeyspaceInfo where
  keyspaceId := keyspaceId
  keyspace := keyspace
  primaryZone :=
    { region := primaryZone.region.map fun region =>
        ⟨region.name, region.cloud.map serializeCloud⟩
      name := primaryZone.name }
  baseKeyRanges := baseKeyRangeRequests.map fun range =>
    ⟨range.baseRangeUuid, some range.lowerBoundInclusive, some range.upperBoundExclusive⟩

def intoKeyspaceInfo (row : SerializedKeyspaceInfo) : KeyspaceInfo where
  keyspaceId := row.keyspaceId
  keyspace := row.keyspace
  primaryZone := some
    { region := row.primaryZone.region.map fun region =>
        ⟨region.cloud.map deserializeCloud, region.name⟩
      name := row.primaryZone.name }
  baseKeyRanges := row.baseKeyRanges.map fun range =>
    ⟨range.baseRangeUuid, range.lowerBoundInclusive.getD [], range.upperBoundExclusive.getD []⟩

end SerializedKeyspaceInfo

/-- The rows of `atomix.keyspaces`; their key is the keyspace. -/
structure Storage where
  keyspaces : List SerializedKeyspaceInfo

inductive CreateKeyspaceError where
  | panic
  | keyspaceAlreadyExists

namespace Storage

def createKeyspace (storage : Storage) (row : SerializedKeyspaceInfo) :
    Except CreateKeyspaceError Storage :=
  if row.keyspace ∈ storage.keyspaces.map SerializedKeyspaceInfo.keyspace then
    .error .keyspaceAlreadyExists
  else .ok ⟨storage.keyspaces ++ [row]⟩

def getKeyspaceInfo (storage : Storage) (keyspace : Keyspace) : Option KeyspaceInfo :=
  (storage.keyspaces.find? fun row => row.keyspace = keyspace).map
    SerializedKeyspaceInfo.intoKeyspaceInfo

def listKeyspaces (storage : Storage) (region : Option Region) : List KeyspaceInfo :=
  let keyspaces := storage.keyspaces.map SerializedKeyspaceInfo.intoKeyspaceInfo
  match region with
  | none => keyspaces
  | some region =>
    keyspaces.filter fun info => (info.primaryZone.bind Zone.region) = some region

variable {storage next : Storage} {row : SerializedKeyspaceInfo}

theorem createKeyspace_eq (created : storage.createKeyspace row = .ok next) :
    row.keyspace ∉ storage.keyspaces.map SerializedKeyspaceInfo.keyspace ∧
      next = ⟨storage.keyspaces ++ [row]⟩ := by
  unfold createKeyspace at created
  split at created
  next => cases created
  next absent =>
    cases created
    exact ⟨absent, rfl⟩

theorem getKeyspaceInfo_concat
    (absent : row.keyspace ∉ storage.keyspaces.map SerializedKeyspaceInfo.keyspace) :
    getKeyspaceInfo ⟨storage.keyspaces ++ [row]⟩ row.keyspace = some row.intoKeyspaceInfo := by
  have none : (storage.keyspaces.find? fun other => other.keyspace = row.keyspace) = none := by
    rw [List.find?_eq_none]
    intro other stored same
    exact absent (List.mem_map.mpr ⟨other, stored, of_decide_eq_true same⟩)
  rw [getKeyspaceInfo, List.find?_append, none]
  simp

theorem exists_of_mem_listKeyspaces {region : Option Region} {info : KeyspaceInfo}
    (listed : info ∈ storage.listKeyspaces region) :
    ∃ row ∈ storage.keyspaces, row.intoKeyspaceInfo = info := by
  unfold listKeyspaces at listed
  simp only at listed
  split at listed
  next => exact List.mem_map.mp listed
  next => exact List.mem_map.mp (List.mem_of_mem_filter listed)

end Storage

/-- The base ranges of a new keyspace; `newV4` gives the generated ids. -/
def requestedRanges (baseKeyRanges : List KeyRangeRequest) (newV4 : Nat → Uuid) :
    List KeyRange :=
  match baseKeyRanges with
  | [] => [⟨newV4 0, [], []⟩]
  | _ => baseKeyRanges.mapIdx fun index range =>
    ⟨newV4 index, range.lowerBoundInclusive, range.upperBoundExclusive⟩

theorem bounded_requestedRanges_iff (baseKeyRanges : List KeyRangeRequest) (newV4 : Nat → Uuid) :
    (∀ range ∈ requestedRanges baseKeyRanges newV4, range.upperBoundExclusive ≠ []) ↔
      baseKeyRanges ≠ [] ∧ ∀ range ∈ baseKeyRanges, range.upperBoundExclusive ≠ [] := by
  cases baseKeyRanges with
  | nil => simp [requestedRanges]
  | cons first rest =>
    simp only [requestedRanges, ne_eq, reduceCtorEq, not_false_eq_true, true_and]
    constructor
    · intro bounded range mem
      obtain ⟨index, within, rfl⟩ := List.getElem_of_mem mem
      exact bounded _ (List.mem_mapIdx.mpr ⟨index, within, rfl⟩)
    · intro bounded range mem
      obtain ⟨index, within, rfl⟩ := List.mem_mapIdx.mp mem
      exact bounded _ (List.getElem_mem within)

/-- `UniverseServer::create_keyspace`; the ranges are not validated and the zone
is unwrapped. -/
def createKeyspace (storage : Storage) (request : CreateKeyspaceRequest)
    (keyspaceId : KeyspaceId) (newV4 : Nat → Uuid) : Except CreateKeyspaceError Storage :=
  match request.primaryZone with
  | none => .error .panic
  | some primaryZone =>
    storage.createKeyspace (.constructFromParts keyspaceId request.keyspace primaryZone
      (requestedRanges request.baseKeyRanges newV4))

theorem baseKeyRanges_intoKeyspaceInfo (keyspaceId : KeyspaceId) (keyspace : Keyspace)
    (primaryZone : Zone) (ranges : List KeyRange) :
    (SerializedKeyspaceInfo.constructFromParts keyspaceId keyspace primaryZone
      ranges).intoKeyspaceInfo.baseKeyRanges = ranges := by
  simp only [SerializedKeyspaceInfo.constructFromParts, SerializedKeyspaceInfo.intoKeyspaceInfo,
    List.map_map]
  exact List.map_id _

theorem baseKeyRanges_of_createKeyspace {storage next : Storage}
    {req : CreateKeyspaceRequest} {keyspaceId : KeyspaceId} {newV4 : Nat → Uuid}
    (created : createKeyspace storage req keyspaceId newV4 = .ok next) :
    ∃ info, info.baseKeyRanges = requestedRanges req.baseKeyRanges newV4 ∧
      next.getKeyspaceInfo req.keyspace = some info ∧
      ∀ region, ∀ reported ∈ next.listKeyspaces region, reported.keyspace = req.keyspace →
        reported = info := by
  unfold createKeyspace at created
  split at created
  next => cases created
  next primaryZone _ =>
    obtain ⟨absent, rfl⟩ := Storage.createKeyspace_eq created
    refine ⟨_, baseKeyRanges_intoKeyspaceInfo keyspaceId req.keyspace primaryZone _, ?_, ?_⟩
    · exact Storage.getKeyspaceInfo_concat absent
    · intro region reported listed same
      obtain ⟨row, stored, rfl⟩ := Storage.exists_of_mem_listKeyspaces listed
      rcases List.mem_append.mp stored with old | new
      · change row.keyspace = req.keyspace at same
        exact absurd (List.mem_map.mpr ⟨row, old, same⟩) absent
      · rw [List.mem_singleton] at new
        rw [new]

/-! ## Records of the storage -/

/-- The cloud is not a free text that the column uses for a public cloud. -/
def Distinguished (cloud : Cloud) : Prop :=
  ∀ name, cloud = .other name → name ∉ ["AWS", "AZURE", "GCP"]

theorem distinguished_deserializeCloud (column : String) :
    Distinguished (deserializeCloud column) := by
  intro name given
  unfold deserializeCloud at given
  grind

theorem deserializeCloud_serializeCloud (cloud : Cloud) :
    deserializeCloud (serializeCloud cloud) = cloud ↔ Distinguished cloud := by
  constructor
  · intro same
    rw [← same]
    exact distinguished_deserializeCloud _
  · intro distinguished
    cases cloud with
    | aws | azure | gcp => simp [serializeCloud, deserializeCloud]
    | other name =>
      have free := distinguished name rfl
      simp only [serializeCloud, deserializeCloud]
      grind

def Zone.Distinguished (zone : Zone) : Prop :=
  ∀ region cloud, zone.region = some region → region.cloud = some cloud →
    Universe.Distinguished cloud

def KeyspaceInfo.serialized (info : KeyspaceInfo) (primaryZone : Zone) : SerializedKeyspaceInfo :=
  .constructFromParts info.keyspaceId info.keyspace primaryZone info.baseKeyRanges

theorem zone_intoKeyspaceInfo (row : SerializedKeyspaceInfo) {zone : Zone}
    (given : row.intoKeyspaceInfo.primaryZone = some zone) : zone.Distinguished := by
  intro region cloud located known
  cases given
  obtain ⟨stored, _, rfl⟩ := Option.map_eq_some_iff.mp located
  obtain ⟨column, _, rfl⟩ := Option.map_eq_some_iff.mp known
  exact distinguished_deserializeCloud column

theorem intoKeyspaceInfo_serialized {info : KeyspaceInfo} {zone : Zone}
    (given : info.primaryZone = some zone) (distinguished : zone.Distinguished) :
    (info.serialized zone).intoKeyspaceInfo = info := by
  obtain ⟨keyspaceId, keyspace, primaryZone, ranges⟩ := info
  cases given
  have zones : (SerializedKeyspaceInfo.constructFromParts keyspaceId keyspace zone
      ranges).intoKeyspaceInfo.primaryZone = some zone := by
    obtain ⟨_ | ⟨_ | cloud, regionName⟩, name⟩ := zone
    · rfl
    · rfl
    · simp [SerializedKeyspaceInfo.constructFromParts, SerializedKeyspaceInfo.intoKeyspaceInfo,
        (deserializeCloud_serializeCloud cloud).mpr (distinguished _ cloud rfl rfl)]
  rw [KeyspaceInfo.mk.injEq]
  exact ⟨rfl, rfl, zones, baseKeyRanges_intoKeyspaceInfo keyspaceId keyspace zone ranges⟩

/-- A record with a zone is read back as it was written, and listed for its region,
exactly when its cloud is distinguished. -/
theorem roundTrips_iff (info : KeyspaceInfo) (zone : Zone) (given : info.primaryZone = some zone) :
    ((info.serialized zone).intoKeyspaceInfo = info ↔ zone.Distinguished) ∧
      ∀ (storage : Storage) (region : Region), info.serialized zone ∈ storage.keyspaces →
        zone.region = some region →
        (info ∈ storage.listKeyspaces (some region) ↔ zone.Distinguished) := by
  refine ⟨⟨?_, intoKeyspaceInfo_serialized given⟩, ?_⟩
  · intro same
    rw [← same] at given
    exact zone_intoKeyspaceInfo _ given
  · intro storage region stored own
    constructor
    · intro listed
      obtain ⟨row, _, rfl⟩ := Storage.exists_of_mem_listKeyspaces listed
      exact zone_intoKeyspaceInfo row given
    · intro distinguished
      refine List.mem_filter.mpr ⟨List.mem_map.mpr ⟨_, stored, ?_⟩, ?_⟩
      · exact intoKeyspaceInfo_serialized given distinguished
      · simp [given, own]

def exampleZone (cloud : Cloud) : Zone := ⟨some ⟨some cloud, "r"⟩, "z"⟩

def exampleInfo (cloud : Cloud) : KeyspaceInfo :=
  ⟨⟨1⟩, ⟨"s", "k"⟩, some (exampleZone cloud), [⟨2, [], [7]⟩]⟩

theorem roundTrips_azure :
    ((exampleInfo .azure).serialized (exampleZone .azure)).intoKeyspaceInfo =
      exampleInfo .azure := by
  refine (roundTrips_iff (exampleInfo .azure) _ rfl).1.mpr ?_
  intro region cloud located known
  cases located
  cases known
  intro name other
  cases other

/-- The free text of the cloud is read as the public cloud. -/
theorem other_read_as_public :
    ((exampleInfo (.other "AWS")).serialized (exampleZone (.other "AWS"))).intoKeyspaceInfo =
        exampleInfo .aws ∧
      Storage.listKeyspaces ⟨[(exampleInfo (.other "AWS")).serialized (exampleZone (.other "AWS"))]⟩
        (exampleZone (.other "AWS")).region = [] := by
  decide +kernel

end Sangria.Universe
