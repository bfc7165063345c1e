import VoxServer.Text.Lines

/-! # The configuration file

The file has lines `key = value`. What follows a `#` is a comment, wherever it stands, and
lines that are empty without it are skipped. Unknown keys are logged and ignored, and the
first error ends the loading, with what has been set so far left as it is.
-/

namespace VoxServer.Config

open Text

structure ServerConfig where
  cpuPoolSize : UInt64 := 2
  storagePoolSize : UInt64 := 2
  taskQueueCapacity : UInt64 := 1024
  dbPath : String := "vox_server.db"
  blobStoragePath : String := "blobs"
  listenAddress : String := "127.0.0.1"
  listenPort : UInt16 := 8080
  networkThreadCount : UInt64 := 4
  sessionTokenPepper : String := ""
  adminToken : String := ""
  maxGroupSize : UInt64 := 256
  maxChannelSize : UInt64 := 10000
  maxQueueDepthPerDevice : UInt64 := 1000
  maxWsOutboundQueue : UInt64 := 256
  maxUploadSizeBytes : UInt64 := 100 * 1024 * 1024
  maxStoragePerUserBytes : UInt64 := 1024 * 1024 * 1024
  maxHttpBodyBytes : UInt64 := 2 * 1024 * 1024
  authRateLimitMax : UInt64 := 60
  authRateLimitWindowSeconds : Int64 := 60
  accountRateLimitMax : UInt64 := 0
  accountRateLimitWindowSeconds : Int64 := 60
  maintenancePurgeIntervalSeconds : Int64 := 3600
  accessTokenLifetimeSeconds : Int64 := 15 * 60
  refreshTokenLifetimeSeconds : Int64 := 30 * 86400
  messageRetentionSeconds : Int64 := 90 * 86400
  attachmentRetentionSeconds : Int64 := 90 * 86400
  argon2TimeCost : UInt32 := 3
  argon2MemoryCost : UInt32 := 65536
  argon2Parallelism : UInt32 := 1
  deriving DecidableEq, Repr

/-- Whether a step succeeded, with its error text, and the configuration it leaves. -/
abbrev Loaded := Except String Unit × ServerConfig

def parseStringValue (v : List Char) : String :=
  let s := trim v
  if s.length ≥ 2 ∧ s.head? = some '"' ∧ s.getLast? = some '"' then String.ofList s.tail.dropLast
  else String.ofList s

/-- `std::from_chars` of an unsigned number, with the rest of the text. No sign is read, and a
number that does not fit is an error. -/
def fromCharsUInt64 (s : List Char) : Option (UInt64 × List Char) :=
  match digits s with
  | some (n, rest) => if n < 2 ^ 64 then some (.ofNat n, rest) else none
  | none => none

/-- `std::from_chars` of a signed number. -/
def fromCharsInt64 (s : List Char) : Option (Int64 × List Char) :=
  match signed s with
  | some (n, rest) => if -2 ^ 63 ≤ n ∧ n < 2 ^ 63 then some (.ofInt n, rest) else none
  | none => none

def parseUInt64 (s : List Char) : Except String UInt64 :=
  let buf := trim s
  if buf = [] then .error "empty value" else
  match fromCharsUInt64 buf with
  | some (v, []) => .ok v
  | _ => .error "invalid unsigned integer"

/-- The number is stored in `out` as soon as it is read, also when other text follows it. -/
def parseInt64 (s : List Char) (out : Int64) : Except String Unit × Int64 :=
  let buf := trim s
  if buf = [] then (.error "empty value", out) else
  match fromCharsInt64 buf with
  | some (v, []) => (.ok (), v)
  | some (v, _ :: _) => (.error "invalid integer", v)
  | none => (.error "invalid integer", out)

section Fields

variable (value : List Char) (c : ServerConfig)

/-- A field of type `std::size_t`, which has 64 bits. -/
def u64 (set : UInt64 → ServerConfig) : Loaded :=
  match parseUInt64 value with
  | .error e => (.error e, c)
  | .ok v => (.ok (), set v)

def u64U32 (set : UInt32 → ServerConfig) : Loaded :=
  match parseUInt64 value with
  | .error e => (.error e, c)
  | .ok v => if v.toNat > 2 ^ 32 - 1 then (.error "value out of range", c) else
    (.ok (), set v.toUInt32)

def i64 (field : Int64) (set : Int64 → ServerConfig) : Loaded :=
  let r := parseInt64 value field
  (r.1, set r.2)

def kMaxListenPort : ℕ := 2 ^ 16 - 1

/-- The error text is the same whatever is wrong with the number. -/
def listenPort : Loaded :=
  match parseUInt64 value with
  | .error _ => (.error "listen_port must fit uint16_t", c)
  | .ok v => if v.toNat > kMaxListenPort then (.error "listen_port must fit uint16_t", c) else
    (.ok (), { c with listenPort := v.toUInt16 })

end Fields

def applyKey (key : String) (value : List Char) (c : ServerConfig) : Loaded :=
  match key with
  | "cpu_pool_size" => u64 value c fun v => { c with cpuPoolSize := v }
  | "storage_pool_size" => u64 value c fun v => { c with storagePoolSize := v }
  | "task_queue_capacity" => u64 value c fun v => { c with taskQueueCapacity := v }
  | "db_path" => (.ok (), { c with dbPath := parseStringValue value })
  | "blob_storage_path" => (.ok (), { c with blobStoragePath := parseStringValue value })
  | "listen_address" => (.ok (), { c with listenAddress := parseStringValue value })
  | "listen_port" => listenPort value c
  | "network_thread_count" => u64 value c fun v => { c with networkThreadCount := v }
  | "session_token_pepper" => (.ok (), { c with sessionTokenPepper := parseStringValue value })
  | "admin_token" => (.ok (), { c with adminToken := parseStringValue value })
  | "max_group_size" => u64 value c fun v => { c with maxGroupSize := v }
  | "max_channel_size" => u64 value c fun v => { c with maxChannelSize := v }
  | "max_queue_depth_per_device" => u64 value c fun v => { c with maxQueueDepthPerDevice := v }
  | "max_ws_outbound_queue" => u64 value c fun v => { c with maxWsOutboundQueue := v }
  | "max_upload_size_bytes" => u64 value c fun v => { c with maxUploadSizeBytes := v }
  | "max_storage_per_user_bytes" => u64 value c fun v => { c with maxStoragePerUserBytes := v }
  | "max_http_body_bytes" => u64 value c fun v => { c with maxHttpBodyBytes := v }
  | "auth_rate_limit_max" => u64 value c fun v => { c with authRateLimitMax := v }
  | "auth_rate_limit_window_seconds" =>
    i64 value c.authRateLimitWindowSeconds fun v => { c with authRateLimitWindowSeconds := v }
  | "account_rate_limit_max" => u64 value c fun v => { c with accountRateLimitMax := v }
  | "account_rate_limit_window_seconds" =>
    i64 value c.accountRateLimitWindowSeconds fun v => { c with accountRateLimitWindowSeconds := v }
  | "maintenance_purge_interval_seconds" =>
    i64 value c.maintenancePurgeIntervalSeconds
      fun v => { c with maintenancePurgeIntervalSeconds := v }
  | "access_token_lifetime_seconds" =>
    i64 value c.accessTokenLifetimeSeconds fun v => { c with accessTokenLifetimeSeconds := v }
  | "refresh_token_lifetime_seconds" =>
    i64 value c.refreshTokenLifetimeSeconds fun v => { c with refreshTokenLifetimeSeconds := v }
  | "message_retention_seconds" =>
    i64 value c.messageRetentionSeconds fun v => { c with messageRetentionSeconds := v }
  | "attachment_retention_seconds" =>
    i64 value c.attachmentRetentionSeconds fun v => { c with attachmentRetentionSeconds := v }
  | "argon2_time_cost" => u64U32 value c fun v => { c with argon2TimeCost := v }
  | "argon2_memory_cost" => u64U32 value c fun v => { c with argon2MemoryCost := v }
  | "argon2_parallelism" => u64U32 value c fun v => { c with argon2Parallelism := v }
  | _ => (.ok (), c)

def loadLine (lineNo : ℕ) (line : List Char) (c : ServerConfig) : Loaded :=
  let line := trim (line.takeWhile (· ≠ '#'))
  if line = [] then (.ok (), c) else
  match splitAtFirst '=' line with
  | none => (.error ("line " ++ toString lineNo ++ ": expected key = value"), c)
  | some (key, value) =>
    let key := trim key
    let value := trim value
    if key = [] then (.error ("line " ++ toString lineNo ++ ": empty key"), c) else
    match applyKey (String.ofList key) value c with
    | (.error err, c) =>
      (.error ("line " ++ toString lineNo ++ " (" ++ String.ofList key ++ "): " ++ err), c)
    | (.ok (), c) => (.ok (), c)

def loadLines : ℕ → List (List Char) → ServerConfig → Loaded
  | _, [], c => (.ok (), c)
  | lineNo, line :: ls, c =>
    match loadLine lineNo line c with
    | (.error e, c) => (.error e, c)
    | (.ok (), c) => loadLines (lineNo + 1) ls c

/-- The file is given by its text, if it can be opened. -/
def loadServerConfigFile (file : Option String) (config : ServerConfig) : Loaded :=
  match file with
  | none => (.error "cannot open file", config)
  | some text => loadLines 1 (lines text.toList) config

inductive StringKey
  | dbPath | blobStoragePath | listenAddress | sessionTokenPepper | adminToken
  deriving DecidableEq, Repr

namespace StringKey

def name : StringKey → String
  | dbPath => "db_path"
  | blobStoragePath => "blob_storage_path"
  | listenAddress => "listen_address"
  | sessionTokenPepper => "session_token_pepper"
  | adminToken => "admin_token"

def get (c : ServerConfig) : StringKey → String
  | dbPath => c.dbPath
  | blobStoragePath => c.blobStoragePath
  | listenAddress => c.listenAddress
  | sessionTokenPepper => c.sessionTokenPepper
  | adminToken => c.adminToken

def set (v : String) (c : ServerConfig) : StringKey → ServerConfig
  | dbPath => { c with dbPath := v }
  | blobStoragePath => { c with blobStoragePath := v }
  | listenAddress => { c with listenAddress := v }
  | sessionTokenPepper => { c with sessionTokenPepper := v }
  | adminToken => { c with adminToken := v }

variable (key : StringKey)

theorem get_set (v : String) (c : ServerConfig) : key.get (key.set v c) = v := by
  cases key with
  | _ => rfl

theorem applyKey_name (value : List Char) (c : ServerConfig) :
    applyKey key.name value c = (.ok (), key.set (parseStringValue value) c) := by
  cases key with
  | _ => rfl

theorem name_plain : ∀ a ∈ key.name.toList, a ≠ '#' ∧ a ≠ '=' ∧ ¬ isSpace a := by
  have hall : key.name.toList.all fun a => a ≠ '#' ∧ a ≠ '=' ∧ ¬ isSpace a := by
    cases key with
    | _ => decide
  intro a ha
  exact of_decide_eq_true (List.all_eq_true.mp hall a ha)

theorem name_ne_nil : key.name.toList ≠ [] := by
  cases key with
  | _ => decide

theorem newline_not_mem_name : '\n' ∉ key.name.toList := by
  intro h
  exact (key.name_plain _ h).2.2 (by decide)

theorem exists_cons_name : ∃ a as, key.name.toList = a :: as ∧ ¬ isSpace a ∧
    as.rdropWhile isSpace = as := by
  obtain ⟨a, as, h⟩ := List.exists_cons_of_ne_nil key.name_ne_nil
  have hplain := key.name_plain
  rw [h] at hplain
  refine ⟨a, as, h, (hplain a List.mem_cons_self).2.2, List.rdropWhile_eq_self_iff.mpr fun hl => ?_⟩
  exact (hplain _ (List.mem_cons_of_mem _ (List.getLast_mem hl))).2.2

theorem loadLine_assignment (lineNo : ℕ) (text : List Char) (c : ServerConfig) :
    loadLine lineNo (key.name.toList ++ " = ".toList ++ '"' :: text) c =
      (.ok (), key.set (parseStringValue
        ('"' :: (text.takeWhile (· ≠ '#')).rdropWhile isSpace)) c) := by
  obtain ⟨a, as, hname, ha, has⟩ := key.exists_cons_name
  have hplain := key.name_plain
  have hcomment : (key.name.toList ++ " = ".toList ++ '"' :: text).takeWhile (· ≠ '#') =
      key.name.toList ++ " = ".toList ++ '"' :: text.takeWhile (· ≠ '#') := by
    rw [List.takeWhile_append_of_pos]
    · simp
    · intro b hb
      rcases List.mem_append.mp hb with hb | hb
      · simpa using (hplain b hb).1
      · have hsep : " = ".toList.all (· ≠ '#') := by decide
        exact List.all_eq_true.mp hsep b hb
  generalize (text.takeWhile (· ≠ '#')) = value at hcomment ⊢
  have hline : trim (key.name.toList ++ " = ".toList ++ '"' :: value) =
      (key.name.toList ++ [' ']) ++ '=' :: ' ' :: '"' :: value.rdropWhile isSpace := by
    rw [hname, List.append_assoc, List.cons_append, trim_cons ha, ← List.append_assoc,
      rdropWhile_append_cons (by decide)]
    simp
  have hkey : trim (key.name.toList ++ [' ']) = key.name.toList := by
    rw [hname, List.cons_append, trim_cons ha, List.rdropWhile_concat, if_pos (by decide), has]
  have hvalue : trim (' ' :: '"' :: value.rdropWhile isSpace) =
      '"' :: value.rdropWhile isSpace := by
    rw [trim_cons_of_space (by decide), trim_cons (by decide), List.rdropWhile_idempotent]
  have hsplit : splitAtFirst '=' ((key.name.toList ++ [' ']) ++
      '=' :: ' ' :: '"' :: value.rdropWhile isSpace) =
        some (key.name.toList ++ [' '], ' ' :: '"' :: value.rdropWhile isSpace) := by
    refine splitAtFirst_append (fun hmem => ?_) _
    rcases List.mem_append.mp hmem with hmem | hmem
    · exact (hplain _ hmem).2.1 rfl
    · simp at hmem
  unfold loadLine
  rw [hcomment, hline]
  dsimp only
  rw [if_neg (by simp), hsplit]
  dsimp only
  rw [hkey, hvalue, if_neg key.name_ne_nil, String.ofList_toList, applyKey_name]

end StringKey

def Skipped (line : String) : Prop :=
  '\n' ∉ line.toList ∧ (line.toList.all isSpace ∨ line.toList.head? = some '#')

instance (line : String) : Decidable (Skipped line) := inferInstanceAs (Decidable (_ ∧ _))

section Lines

variable {lineNo : ℕ} {c : ServerConfig}

theorem loadLine_of_skipped {line : String} (h : Skipped line) :
    loadLine lineNo line.toList c = (.ok (), c) := by
  have htrim : trim (line.toList.takeWhile (· ≠ '#')) = [] := by
    rcases h.2 with hblank | hcomment
    · refine trim_eq_nil (List.all_eq_true.mpr fun a ha => ?_)
      exact List.all_eq_true.mp hblank a ((List.takeWhile_prefix _).subset ha)
    · obtain ⟨rest, hrest⟩ := List.head?_eq_some_iff.mp hcomment
      rw [hrest]
      rfl
  rw [loadLine]
  dsimp only
  rw [htrim, if_pos rfl]

theorem loadLines_skipped_append {skipped : List String} (h : ∀ l ∈ skipped, Skipped l)
    (ls : List (List Char)) :
    loadLines lineNo (skipped.map String.toList ++ ls) c =
      loadLines (lineNo + skipped.length) ls c := by
  induction skipped generalizing lineNo with
  | nil => rfl
  | cons l skipped ih =>
    rw [List.map_cons, List.cons_append, loadLines, loadLine_of_skipped (h l List.mem_cons_self)]
    dsimp only
    rw [ih fun l hl => h l (List.mem_cons_of_mem _ hl), List.length_cons, Nat.add_right_comm,
      Nat.add_assoc]

theorem loadLines_append_nil (ls : List (List Char)) :
    loadLines lineNo (ls ++ [[]]) c = loadLines lineNo ls c := by
  induction ls generalizing lineNo c with
  | nil => rfl
  | cons l ls ih =>
    rw [List.cons_append, loadLines, loadLines]
    split
    · rfl
    · exact ih

theorem load_intercalate {ls : List String} (h : ∀ l ∈ ls, '\n' ∉ l.toList) :
    loadServerConfigFile (some ("\n".intercalate ls)) c = loadLines 1 (ls.map String.toList) c := by
  have hls : ∀ l ∈ ls.map String.toList, '\n' ∉ l := by
    intro l hl
    obtain ⟨l', hl', rfl⟩ := List.mem_map.mp hl
    exact h l' hl'
  have hsep : "\n".toList = ['\n'] := rfl
  rw [loadServerConfigFile, String.toList_intercalate, hsep]
  rcases lines_intercalate hls with he | he
  · rw [he]
  · calc loadLines 1 (lines (['\n'].intercalate (ls.map String.toList))) c
      _ = loadLines 1 (lines (['\n'].intercalate (ls.map String.toList)) ++ [[]]) c :=
        (loadLines_append_nil _).symm
      _ = loadLines 1 (ls.map String.toList) c := by rw [he]

end Lines

section Quoted

variable {v : String}

/-- What is loaded for a quoted text: the part before a `#`, if there is one, then without the
quotation mark at the end. -/
def loadedValue (v : String) : String :=
  parseStringValue ('"' :: ((v.toList ++ ['"']).takeWhile (· ≠ '#')).rdropWhile isSpace)

theorem loadedValue_of_not_mem (h : '#' ∉ v.toList) : loadedValue v = v := by
  have hall : (v.toList ++ ['"']).takeWhile (· ≠ '#') = v.toList ++ ['"'] := by
    rw [List.takeWhile_eq_self_iff]
    intro a ha
    rcases List.mem_append.mp ha with ha | ha
    · exact decide_eq_true (ne_of_mem_of_not_mem ha h)
    · rw [List.mem_singleton.mp ha]
      decide
  have hquote : ¬ isSpace '"' := by decide
  have htrim : trim ('"' :: (v.toList ++ ['"'])) = '"' :: (v.toList ++ ['"']) := by
    rw [trim_cons hquote, List.rdropWhile_concat, if_neg hquote]
  have hlast : ('"' :: (v.toList ++ ['"'])).getLast? = some '"' := by
    rw [← List.cons_append, List.getLast?_concat]
  rw [loadedValue, hall, List.rdropWhile_concat, if_neg hquote, parseStringValue, htrim]
  simp [hlast]

theorem not_mem_loadedValue : '#' ∉ (loadedValue v).toList := by
  intro hmem
  have hraw : '#' ∈ trim ('"' :: ((v.toList ++ ['"']).takeWhile (· ≠ '#')).rdropWhile isSpace) := by
    unfold loadedValue parseStringValue at hmem
    dsimp only at hmem
    split at hmem
    · rw [String.toList_ofList] at hmem
      exact List.mem_of_mem_tail (List.dropLast_subset _ hmem)
    · rwa [String.toList_ofList] at hmem
  rcases List.mem_cons.mp (mem_of_mem_trim hraw) with h | h
  · cases h
  · have htake := (List.rdropWhile_prefix _ _).subset h
    simpa using List.mem_takeWhile_imp htake

/-- A text in quotation marks is loaded as it is exactly if it has no `#`, which would end the line
before it. -/
theorem quoted_loads_iff (key : StringKey) (hv : '\n' ∉ v.toList) (before after : List String)
    (hskip : ∀ l ∈ before ++ after, Skipped l) (c : ServerConfig) :
    loadServerConfigFile (some ("\n".intercalate
        (before ++ (key.name ++ " = \"" ++ v ++ "\"") :: after))) c = (.ok (), key.set v c) ↔
      '#' ∉ v.toList := by
  have hbefore := fun l hl => hskip l (List.mem_append_left after hl)
  have hafter := fun l hl => hskip l (List.mem_append_right before hl)
  have hline : (key.name ++ " = \"" ++ v ++ "\"").toList =
      key.name.toList ++ " = ".toList ++ '"' :: (v.toList ++ ['"']) := by
    simp
  have hnewline : ∀ l ∈ before ++ (key.name ++ " = \"" ++ v ++ "\"") :: after, '\n' ∉ l.toList := by
    intro l hl
    rcases List.mem_append.mp hl with hl | hl
    · exact (hbefore l hl).1
    rcases List.mem_cons.mp hl with rfl | hl
    · rw [hline]
      simpa [hv] using key.newline_not_mem_name
    · exact (hafter l hl).1
  have hload : loadServerConfigFile (some ("\n".intercalate
      (before ++ (key.name ++ " = \"" ++ v ++ "\"") :: after))) c =
        (.ok (), key.set (loadedValue v) c) := by
    rw [load_intercalate hnewline, List.map_append, loadLines_skipped_append hbefore, List.map_cons,
      loadLines, hline, key.loadLine_assignment, ← List.append_nil (after.map _)]
    exact loadLines_skipped_append hafter []
  rw [hload]
  constructor
  · intro h hmem
    have hvalue := congrArg (fun r => key.get r.2) h
    rw [key.get_set, key.get_set] at hvalue
    exact not_mem_loadedValue (hvalue ▸ hmem)
  · intro h
    rw [loadedValue_of_not_mem h]

end Quoted

/-- A secret loses what follows its `#`, and keeps the quotation mark before it. -/
theorem secret_cut_short :
    loadServerConfigFile (some "admin_token = \"s3#cret\"") {} =
        (.ok (), { adminToken := "\"s3" }) ∧
      loadServerConfigFile (some "admin_token = \"s3#cret\"") {} ≠
        (.ok (), { adminToken := "s3#cret" }) := by
  decide

/-- A path between a comment and blank lines. -/
theorem path_loads : '\n' ∉ "/var/lib/my data".toList ∧
    (∀ l ∈ ["# storage", "  "] ++ [""], Skipped l) ∧
    loadServerConfigFile (some ("\n".intercalate (["# storage", "  "] ++
      (StringKey.dbPath.name ++ " = \"" ++ "/var/lib/my data" ++ "\"") :: [""]))) {} =
        (.ok (), StringKey.dbPath.set "/var/lib/my data" {}) :=
  ⟨by decide, by decide, (quoted_loads_iff .dbPath (by decide) ["# storage", "  "] [""] (by decide)
    {}).mpr (by decide)⟩

end VoxServer.Config
