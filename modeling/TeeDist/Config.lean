import TeeDist.Lib.CText
import TeeDist.Layout

/-!
# Configuration files

`config.c`: the lines of a configuration file, the values of its keys, and the checks at its
end.  The three slot counts of a memory node are a function of the region kind.  Where a
file leaves a count out, `td_allocate_weighted_slots` gives it a share of what the others
leave of the memory.

`size_t` is `UInt64` here, so that sums wrap around as they do in the source.
-/

namespace TeeDist

open CText

/-- `td_mode_t`. -/
inductive Mode where
  | cn
  | mn
deriving DecidableEq, Repr

/-- `td_endpoint_t`. -/
structure Endpoint where
  host : List UInt8
  port : Int
  nodeId : Int
deriving DecidableEq

/-- `td_config_t`.  `slots` and `slotsExplicit` are the three fields of each name. -/
structure Config where
  mode : Mode
  transport : Transport
  replication : Int
  /-- `tdx == TD_TDX_ON`. -/
  tdx : Bool
  /-- `cache == TD_CACHE_ON`. -/
  cache : Bool
  mnMemorySize : UInt64
  encryptionKeyHex : List UInt8
  rdmaDevice : List UInt8
  rdmaGidIndex : Int
  listenHost : List UInt8
  listenPort : Int
  nodeId : Int
  memoryFile : List UInt8
  slots : RegionKind → UInt64
  slotsExplicit : RegionKind → Bool
  maxValueSize : UInt64
  evictionThresholdPct : UInt64
  recvQueueDepth : UInt64
  mnEndpoints : List Endpoint

/-- `td_config_init_defaults`. -/
def Config.initDefaults : Config where
  mode := .cn
  transport := .tcp
  replication := 3
  tdx := false
  cache := true
  mnMemorySize := 64 * 1024 * 1024
  encryptionKeyHex := []
  rdmaDevice := ascii "mlx5_0"
  rdmaGidIndex := 0
  listenHost := ascii "0.0.0.0"
  listenPort := 0
  nodeId := -1
  memoryFile := ascii "/tmp/tee-dist-mn.dat"
  slots _ := 0
  slotsExplicit _ := false
  maxValueSize := 256
  evictionThresholdPct := 80
  recvQueueDepth := 32
  mnEndpoints := []

/-! ## Values -/

/-- `td_parse_mode`. -/
def parseMode (value : List UInt8) : Option Mode :=
  if value = ascii "cn" then some .cn else if value = ascii "mn" then some .mn else none

/-- `td_parse_transport`. -/
def parseTransport (value : List UInt8) : Option Transport :=
  if value = ascii "tcp" then some .tcp else if value = ascii "rdma" then some .rdma else none

/-- `td_parse_toggle`. -/
def parseToggle (value : List UInt8) : Option Bool :=
  if value = ascii "on" then some true else if value = ascii "off" then some false else none

/-- `td_normalize_value`: a value without white space around it, and without one pair of quotes. -/
def normalizeValue (value : List UInt8) : List UInt8 :=
  let value := trim value
  trim (if 2 ≤ value.length ∧ value.head? = some 34 ∧ value.getLast? = some 34 then
    (value.drop 1).dropLast else value)

/-- `td_parse_size_literal`. -/
def parseSizeLiteral (text : List UInt8) : Option UInt64 :=
  let number := strtoull text
  -- `end == text` where there is no number, and then the rest is the whole text
  if number.overflow ∨ number.rest = text ∨ number.rest ≠ [] then none else some number.value

/-- The multiplier of a unit in `td_parse_size_bytes`. -/
def unitMultiplier (unit : List UInt8) : Option UInt64 :=
  if unit = ascii "b" then some 1
  else if unit = ascii "kb" then some 1024
  else if unit = ascii "mb" then some (1024 * 1024)
  else if unit = ascii "gb" then some (1024 * 1024 * 1024)
  else none

/-- `td_parse_size_bytes`: a number of at most 63 digits, and a unit of at most 7 letters. -/
def parseSizeBytes (text : List UInt8) : Option UInt64 :=
  let number := text.takeWhile isDigit
  let afterNumber := (text.dropWhile isDigit).dropWhile isSpace
  let unit := (afterNumber.takeWhile isAlpha).map toLower
  let rest := (afterNumber.dropWhile isAlpha).dropWhile isSpace
  if 64 ≤ number.length ∨ 8 ≤ unit.length ∨ number = [] ∨ unit = [] ∨ rest ≠ [] then none
  else
    let magnitude := strtoull number
    if magnitude.overflow then none
    else
      match unitMultiplier unit with
      | none => none
      | some multiplier =>
          if magnitude.value > 0xffffffffffffffff / multiplier then none
          else some (magnitude.value * multiplier)

/-- `td_parse_host_port`. -/
def parseHostPort (input : List UInt8) : Option Endpoint :=
  if 128 ≤ input.length then none
  else
    match splitLast 58 input with
    | none => none
    | some (before, after) =>
        let endpoint : Endpoint := ⟨truncated 64 (trim before), atoi (trim after), -1⟩
        if endpoint.host = [] ∨ endpoint.port ≤ 0 then none else some endpoint

/-! ## Lines -/

/-- The error of a value that does not parse. -/
def invalidAt (name : String) (lineNo : Nat) : String :=
  "invalid " ++ name ++ " at line " ++ toString lineNo

/-- A value that has to parse. -/
def expect {α : Type} (name : String) (lineNo : Nat) : Option α → Except String α
  | none => .error (invalidAt name lineNo)
  | some a => .ok a

/-- The key of a slot count. -/
def RegionKind.slotsKey : RegionKind → String
  | .prime => "prime_slots"
  | .cache => "cache_slots"
  | .backup => "backup_slots"

/-- One branch of `td_config_load`: a key, and what it does with its value.  It is given the number
of the line. -/
structure Setting where
  name : String
  apply : Nat → List UInt8 → Config → Except String Config

/-- A key whose value has to parse. -/
def Setting.checked {α : Type} (name : String) (parse : List UInt8 → Option α)
    (set : Config → α → Config) : Setting where
  name := name
  apply lineNo value cfg := do return set cfg (← expect name lineNo (parse value))

/-- A key whose value is taken as it is. -/
def Setting.plain (name : String) (set : Config → List UInt8 → Config) : Setting where
  name := name
  apply _ value cfg := .ok (set cfg value)

/-- `prime_slots`, `cache_slots` and `backup_slots`.  An empty value leaves the count out. -/
def Setting.slots (kind : RegionKind) : Setting where
  name := kind.slotsKey
  apply lineNo value cfg :=
    if value = [] then .ok cfg
    else do
      let count ← expect kind.slotsKey lineNo (parseSizeLiteral value)
      return { cfg with
        slots := Function.update cfg.slots kind count
        slotsExplicit := Function.update cfg.slotsExplicit kind true }

/-- `mn_endpoint`, at most `TD_MAX_ENDPOINTS` times. -/
def Setting.mnEndpoint : Setting where
  name := "mn_endpoint"
  apply lineNo value cfg :=
    if 8 ≤ cfg.mnEndpoints.length then .error "too many mn_endpoint values"
    else do
      let endpoint ← expect "mn_endpoint" lineNo (parseHostPort value)
      return { cfg with mnEndpoints :=
        cfg.mnEndpoints ++ [{ endpoint with nodeId := cfg.mnEndpoints.length }] }

/-- The branches of `td_config_load`, in its order. -/
def settings : List Setting :=
  [.checked "mode" parseMode fun cfg v => { cfg with mode := v },
    .checked "transport" parseTransport fun cfg v => { cfg with transport := v },
    .plain "replication" fun cfg v => { cfg with replication := atoi v },
    .checked "tdx" parseToggle fun cfg v => { cfg with tdx := v },
    .checked "cache" parseToggle fun cfg v => { cfg with cache := v },
    .checked "mn_memory_size" parseSizeBytes fun cfg v => { cfg with mnMemorySize := v },
    .plain "encryption_key_hex" fun cfg v => { cfg with encryptionKeyHex := truncated 65 v },
    .plain "rdma_device" fun cfg v => { cfg with rdmaDevice := truncated 64 v },
    .plain "rdma_gid_index" fun cfg v => { cfg with rdmaGidIndex := atoi v },
    .plain "listen_host" fun cfg v => { cfg with listenHost := truncated 64 v },
    .plain "listen_port" fun cfg v => { cfg with listenPort := atoi v },
    .plain "node_id" fun cfg v => { cfg with nodeId := atoi v },
    .plain "memory_file" fun cfg v => { cfg with memoryFile := truncated 256 v },
    .slots .prime,
    .slots .cache,
    .slots .backup,
    .plain "max_value_size" fun cfg v => { cfg with maxValueSize := (strtoull v).value },
    .plain "eviction_threshold_pct" fun cfg v =>
      { cfg with evictionThresholdPct := (strtoull v).value },
    .plain "recv_queue_depth" fun cfg v => { cfg with recvQueueDepth := (strtoull v).value },
    .mnEndpoint]

/-- What a line says. -/
inductive Line where
  /-- Nothing: it is blank or a comment. -/
  | blank
  /-- It has no colon. -/
  | noColon
  | entry (key value : List UInt8)
deriving DecidableEq

/-- A line of the file, as the loop of `td_config_load` takes it apart. -/
def parseLine (line : List UInt8) : Line :=
  let text := trim (cString line)
  if text = [] ∨ text.head? = some 35 then .blank
  else
    match splitFirst 58 text with
    | none => .noColon
    | some (key, value) => .entry (trim key) (normalizeValue value)

/-- One turn of the loop of `td_config_load`. -/
def Config.applyLine (lineNo : Nat) (line : List UInt8) (cfg : Config) : Except String Config :=
  match parseLine line with
  | .blank => .ok cfg
  | .noColon => .error ("config parse error at line " ++ toString lineNo)
  | .entry key value =>
      match settings.find? fun s => ascii s.name = key with
      | none => .ok cfg
      | some s => s.apply lineNo value cfg

/-- The loop of `td_config_load`, from a line on. -/
def Config.applyLines : Nat → List (List UInt8) → Config → Except String Config
  | _, [], cfg => .ok cfg
  | lineNo, line :: lines, cfg => do Config.applyLines (lineNo + 1) lines (← cfg.applyLine lineNo line)

/-! ## Slot counts -/

/-- `td_slot_bucket_t`. -/
structure Bucket where
  slots : UInt64
  isExplicit : Bool
  weight : UInt64
  remainder : UInt64
  priority : Nat

/-- The order of the buckets. -/
def RegionKind.all : List RegionKind := [.prime, .cache, .backup]

/-- The sum of a field over the buckets that are not explicit. -/
def bucketSum (field : Bucket → UInt64) (buckets : RegionKind → Bucket) : UInt64 :=
  RegionKind.all.foldl (fun sum kind =>
    if (buckets kind).isExplicit then sum else sum + field (buckets kind)) 0

/-- Change the buckets that are not explicit. -/
def mapBuckets (f : Bucket → Bucket) (buckets : RegionKind → Bucket) (kind : RegionKind) : Bucket :=
  if (buckets kind).isExplicit then buckets kind else f (buckets kind)

/-- One comparison in the search for the best bucket. -/
def betterBucket (buckets : RegionKind → Bucket) (best : Option RegionKind) (kind : RegionKind) :
    Option RegionKind :=
  if (buckets kind).isExplicit then best
  else
    match best with
    | none => some kind
    | some b =>
        if (buckets kind).remainder > (buckets b).remainder ∨
            ((buckets kind).remainder = (buckets b).remainder ∧
              (buckets kind).priority < (buckets b).priority) then some kind
        else some b

/-- The bucket with the largest remainder, the first one among equals. -/
def bestBucket (buckets : RegionKind → Bucket) : Option RegionKind :=
  RegionKind.all.foldl (betterBucket buckets) none

/-- The second loop of `td_allocate_weighted_slots`, for at most `fuel` turns: one slot more for the
best bucket, until all are allocated. -/
def distribute (remaining : UInt64) :
    Nat → UInt64 → (RegionKind → Bucket) → RegionKind → Bucket
  | 0, _, buckets => buckets
  | fuel + 1, allocated, buckets =>
      if allocated < remaining then
        match bestBucket buckets with
        | none => buckets
        | some best =>
            distribute remaining fuel (allocated + 1) (Function.update buckets best
              { buckets best with slots := (buckets best).slots + 1, remainder := 0 })
      else buckets

/-- The weights of the three kinds. -/
def RegionKind.weight : RegionKind → UInt64
  | .prime => 4
  | .cache => 1
  | .backup => 4

/-- `td_allocate_weighted_slots`.  Its loop takes a turn for each slot that is not allocated. -/
def allocateWeightedSlots (cfg : Config) (remaining : UInt64) : Config :=
  let buckets := fun kind : RegionKind =>
    (⟨cfg.slots kind, cfg.slotsExplicit kind, kind.weight, 0, kind.number⟩ : Bucket)
  let weightSum := bucketSum (·.weight) buckets
  let zeroed := mapBuckets (fun b => { b with slots := 0 }) buckets
  let resolved :=
    if weightSum = 0 ∨ remaining = 0 then zeroed
    else
      let shared := mapBuckets (fun b =>
        { b with
          slots := b.slots + remaining * b.weight / weightSum
          remainder := remaining * b.weight % weightSum }) zeroed
      let allocated := bucketSum (·.slots) shared
      distribute remaining (remaining - allocated).toNat allocated shared
  { cfg with slots := fun kind => (resolved kind).slots }

/-- `td_resolve_mn_slots`. -/
def resolveMnSlots (cfg : Config) : Except String Config :=
  let headerSize := UInt64.ofNat headerBytes
  let slotSize := UInt64.ofNat slotBytes
  if cfg.mnMemorySize ≤ headerSize then
    .error ("mn_memory_size must be larger than " ++ toString headerBytes ++ " bytes")
  else
    let capacity := (cfg.mnMemorySize - headerSize) / slotSize
    let manual := cfg.slots .prime + cfg.slots .cache + cfg.slots .backup
    if capacity = 0 then .error "mn_memory_size is too small to fit any slots"
    else if manual > capacity then
      .error ("configured slots need " ++ toString (headerSize + manual * slotSize) ++
        " bytes but mn_memory_size is " ++ toString cfg.mnMemorySize ++ " bytes")
    else
      let cfg := allocateWeightedSlots cfg (capacity - manual)
      if cfg.slots .prime = 0 then
        .error "resolved prime_slots is zero; increase mn_memory_size or set prime_slots"
      else if cfg.replication > 1 ∧ cfg.slots .backup = 0 then
        .error "resolved backup_slots is zero; increase mn_memory_size or set backup_slots"
      else .ok cfg

/-- The checks at the end of `td_config_load`. -/
def Config.finish (cfg : Config) : Except String Config :=
  if cfg.maxValueSize > UInt64.ofNat TeeDist.maxValueSize then
    .error ("max_value_size exceeds built-in limit " ++ toString TeeDist.maxValueSize)
  else
    let cfg := if cfg.replication ≤ 0 then { cfg with replication := 1 } else cfg
    if cfg.mode = .cn ∧ cfg.mnEndpoints = [] then
      .error "cn config requires at least one mn_endpoint"
    else if cfg.mode = .mn ∧ cfg.listenPort ≤ 0 then .error "mn config requires listen_port"
    else
      match if cfg.mode = .mn then resolveMnSlots cfg else .ok cfg with
      | .error e => .error e
      | .ok cfg =>
          if cfg.encryptionKeyHex = [] then .error "encryption_key_hex must be set" else .ok cfg

/-- `td_config_load`, given what is in the file, if it can be opened. -/
def configLoad (path : String) (file : Option (List UInt8)) : Except String Config :=
  match file with
  | none => .error ("cannot open config " ++ path)
  | some text => do
      let cfg ← Config.initDefaults.applyLines 1 (fgetsLines 512 text)
      cfg.finish

/-- What `td_region_open` takes from a configuration. -/
def Config.region (cfg : Config) : RegionConfig where
  mnMemorySize := cfg.mnMemorySize
  nodeId := cfg.nodeId
  primeSlots := cfg.slots .prime
  cacheSlots := cfg.slots .cache
  backupSlots := cfg.slots .backup
  maxValueSize := cfg.maxValueSize
  cacheMode := if cfg.cache then 1 else 0

end TeeDist
