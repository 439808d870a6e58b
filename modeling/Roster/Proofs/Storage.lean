import Roster.Stored.Config
import Roster.Proofs.JsonText
import Roster.Proofs.Settings

/-!
# Proofs.Storage — what is stored reads back

* `Duration.wholeMillis`: what of a duration is stored. `Duration.ofStored?_stored`: it reads back.
  `Duration.whole_of_ofStored?`: nothing else does.
* `Selector.ofJson?_toJson`, `Record.ofJson?_toJson`: selectors and records read back.
* `Config.toValue_eq`: settings are written unless a duration is too long.
  `Config.ofTree?_members`: what is written reads back with whole milliseconds.
  `Config.whole_of_ofTree?`: what is read has only durations that can be written and lose nothing.
* `settings_survive_storage`: both ways together.
-/

namespace Roster

open Json

/-! ## Durations -/

namespace Duration

/-- The whole milliseconds of a duration. -/
def wholeMillis (d : Duration) : Duration :=
  ⟨d.nanos / milli * milli, Nat.le_trans (Nat.div_mul_le_self _ _) d.nanos_le⟩

/-- Too many milliseconds for a number of 64 bits. -/
def Long (d : Duration) : Prop := 2 ^ 64 * milli ≤ d.nanos

instance (d : Duration) : Decidable d.Long := inferInstanceAs (Decidable (_ ≤ _))

theorem long_iff {d : Duration} : d.Long ↔ 2 ^ 64 ≤ d.millis :=
  (Nat.le_div_iff_mul_le (by decide)).symm

theorem ofMillis_millis (d : Duration) : ofMillis d.millis = d.wholeMillis :=
  ext (Nat.min_eq_left d.wholeMillis.nanos_le)

theorem wholeMillis_of_dvd {d : Duration} (whole : milli ∣ d.nanos) : d.wholeMillis = d :=
  ext (Nat.div_mul_cancel whole)

theorem nanos_ofMillis {ms : Nat} (word : ms < 2 ^ 64) : (ofMillis ms).nanos = ms * milli :=
  nanos_of_le (Nat.le_sub_one_of_lt word) (by decide)

/-- The text that stands for a duration of fewer than `2^64` milliseconds. -/
def stored (d : Duration) : String := Decimal.write d.millis ++ "ms"

theorem toStored?_eq (d : Duration) : d.toStored? = if d.Long then none else some d.stored := by
  by_cases long : d.Long
  · rw [if_pos long]
    exact if_neg (Nat.not_lt_of_le (long_iff.1 long))
  · rw [if_neg long]
    exact if_pos (Nat.lt_of_not_le (long_iff.not.1 long))

/-- Digits are no part of the unit. -/
theorem dropUnits_of_digits {s : List Char} (digits : ∀ c ∈ s, c.isDigit = true) : dropUnits s = s := by
  unfold dropUnits
  split
  · exact absurd (digits 's' List.mem_cons_self) (by decide)
  · rfl

/-- **A stored duration reads back in whole milliseconds.** -/
theorem ofStored?_stored {d : Duration} (short : ¬ d.Long) :
    ofStored? d.stored = some d.wholeMillis := by
  have bare : (dropUnits d.stored.toList.reverse).reverse = (Decimal.write d.millis).toList := by
    have digits : ∀ c ∈ (Decimal.write d.millis).toList.reverse, c.isDigit = true := fun c hc =>
      Decimal.isDigit_of_mem_write (List.mem_reverse.1 hc)
    -- from the back the unit comes first, and the digits stop the search for another one
    have unit : "ms".toList.reverse = ['s', 'm'] := by decide
    rw [stored, String.toList_append, List.reverse_append, unit, List.cons_append, List.cons_append,
      List.nil_append, dropUnits, dropUnits_of_digits digits, List.reverse_reverse]
  have word : d.millis ≤ UInt64.size - 1 :=
    Nat.le_sub_one_of_lt (Nat.lt_of_not_le (long_iff.not.1 short))
  have read : Decimal.read (UInt64.size - 1) (Decimal.write d.millis).toList = .ok d.millis :=
    Decimal.read_eq_ok_iff.2 ⟨Decimal.spells_write _, word⟩
  rw [ofStored?, bare, read, ← ofMillis_millis]

/-- It is stored and read back without loss. -/
structure Whole (d : Duration) : Prop where
  short : ¬ d.Long
  dvd : milli ∣ d.nanos

/-- **What stands for a duration stands for a number of 64 bits of milliseconds.** -/
theorem whole_of_ofStored? {s : String} {d : Duration} (h : ofStored? s = some d) : d.Whole := by
  unfold ofStored? at h
  split at h
  · next ms read =>
    obtain rfl := Option.some.inj h
    have word : ms < 2 ^ 64 :=
      Nat.lt_of_le_sub_one (by decide) (Decimal.read_eq_ok_iff.1 read).2
    have value := nanos_ofMillis word
    refine ⟨fun long => ?_, ⟨ms, value.trans (Nat.mul_comm _ _)⟩⟩
    rw [Long, value] at long
    exact absurd (Nat.le_of_mul_le_mul_right long (by decide)) (Nat.not_le_of_lt word)
  · cases h

theorem ofTree?_stored {d : Duration} (short : ¬ d.Long) :
    Duration.ofTree? (Value.string d.stored).tree = some d.wholeMillis := by
  show (Tree.text? _).bind ofStored? = _
  rw [text?_string, Option.bind_some, ofStored?_stored short]

theorem whole_of_ofTree? {t : Tree} {d : Duration} (h : Duration.ofTree? t = some d) : d.Whole := by
  obtain ⟨s, -, read⟩ := Option.bind_eq_some_iff.1 h
  exact whole_of_ofStored? read

end Duration

/-! ## Fields -/

namespace Json.Fields

variable {α : Type} {f : Fields} {name : String} {value : Tree → Option α} {t : Tree} {a : α}

theorem get?_eq_some (there : f.find? name = some t) (read : value t = some a) :
    f.get? name value = some a := by
  rw [get?, there, Option.bind_some, read]

theorem getD?_eq_some {missing : α} (there : f.find? name = some t) (read : value t = some a) :
    f.getD? name value missing = some a := by
  rw [getD?, there]
  exact read

end Json.Fields

/-- A text that may be missing. -/
theorem optionText_reads (a : Option String) :
    (Value.optionText a).tree.option? Tree.text? = some a := by
  simpa using option?_optionText id text?_string a

/-! ## Selectors -/

namespace Selector

theorem ofTree?_pods (space : String) (labels : Option String) :
    podsOfTree? (Value.object [("namespace", .string space), ("labels", .optionText labels)]).tree =
      some (pods space labels) := by
  obtain ⟨f, fields, find⟩ := ofTree?_object
    [("namespace", .string space), ("labels", .optionText labels)] podFields podFields.length
    rfl (by decide)
  have named : f.get? "namespace" Tree.text? = some space :=
    Fields.get?_eq_some (find _ _ (by simp)) (text?_string space)
  have narrowed : f.getD? "labels" (Tree.option? Tree.text?) none = some labels :=
    Fields.getD?_eq_some (find _ _ (by simp)) (optionText_reads labels)
  unfold podsOfTree?
  simp only [fields, named, narrowed, Option.bind_eq_bind, Option.bind_some]
  rfl

theorem ofTree?_toValue (s : Selector) : ofTree? s.toValue.tree = some s := by
  cases s with
  | service name =>
    unfold ofTree? toValue
    rw [members?_object, Option.bind_eq_bind, Option.bind_some]
    exact congrArg (Option.bind · fun name => some (service name)) (text?_string name)
  | pods space labels =>
    unfold ofTree? toValue
    rw [members?_object, Option.bind_eq_bind, Option.bind_some]
    exact ofTree?_pods space labels

/-- **A stored selector reads back.** -/
theorem ofJson?_toJson (s : Selector) : ofJson? s.toJson = some s := by
  unfold ofJson? toJson
  rw [ofBytes?_text, Option.bind_eq_bind, Option.bind_some, ofTree?_toValue]

end Selector

/-! ## Records -/

theorem portOf?_nat (port : UInt16) : Record.portOf? (Value.nat port.toNat).tree = some port := by
  rw [Record.portOf?, natUpTo?_nat (Nat.le_sub_one_of_lt port.toNat_lt)]
  exact congrArg some UInt16.ofNat_toNat

/-- **A stored record reads back.** -/
theorem Record.ofJson?_toJson (r : Record) : Record.ofJson? r.toJson = some r := by
  obtain ⟨f, fields, find⟩ := ofTree?_object
    [("address", .string r.address), ("port", .nat r.port.toNat),
      ("group_key", .optionText r.group), ("ready", .bool r.ready)] fieldNames fieldNames.length
    rfl (by decide)
  have address : f.get? "address" Tree.text? = some r.address :=
    Fields.get?_eq_some (find _ _ (by simp)) (text?_string r.address)
  have port : f.get? "port" portOf? = some r.port :=
    Fields.get?_eq_some (find _ _ (by simp)) (portOf?_nat r.port)
  have group : f.getD? "group_key" (Tree.option? Tree.text?) none = some r.group :=
    Fields.getD?_eq_some (find _ _ (by simp)) (optionText_reads r.group)
  have ready : f.get? "ready" Tree.bool? = some r.ready :=
    Fields.get?_eq_some (find _ _ (by simp)) (bool?_bool r.ready)
  unfold ofJson? toJson
  rw [ofBytes?_text, Option.bind_eq_bind, Option.bind_some]
  unfold ofTree?
  simp only [fields, address, port, group, ready, Option.bind_eq_bind, Option.bind_some]
  rfl

/-! ## Settings -/

namespace Config

/-- The durations of settings, as they are written. -/
def durations (c : Config) : List Duration :=
  [c.queryInterval, c.initialDelay, c.connectTimeout, c.readTimeout, c.operationSleep,
   c.minConnectTime, c.initialReconnectDelay, c.maxReconnectDelay]

/-- The settings with whole milliseconds. -/
def wholeMillis (c : Config) : Config :=
  { c with
    queryInterval := c.queryInterval.wholeMillis
    initialDelay := c.initialDelay.wholeMillis
    connectTimeout := c.connectTimeout.wholeMillis
    readTimeout := c.readTimeout.wholeMillis
    operationSleep := c.operationSleep.wholeMillis
    minConnectTime := c.minConnectTime.wholeMillis
    initialReconnectDelay := c.initialReconnectDelay.wholeMillis
    maxReconnectDelay := c.maxReconnectDelay.wholeMillis }

/-- The members that are written if no duration is too long. -/
def storedMembers (c : Config) : List (String × Value) :=
  [("selector", c.selector.toValue),
   ("query_interval", .string c.queryInterval.stored),
   ("initial_delay", .string c.initialDelay.stored),
   ("connect_timeout", .string c.connectTimeout.stored),
   ("read_timeout", .string c.readTimeout.stored),
   ("operation_attempts", .nat c.operationAttempts.toNat),
   ("operation_sleep", .string c.operationSleep.stored),
   ("min_connect_time", .string c.minConnectTime.stored),
   ("initial_reconnect_delay", .string c.initialReconnectDelay.stored),
   ("max_reconnect_delay", .string c.maxReconnectDelay.stored),
   ("max_reconnect_attempts", .nat c.maxReconnectAttempts.toNat),
   ("split_clusters_during_rolling_update", .bool c.splitDuringRollingUpdate),
   ("local_address", .optionText (c.localAddress.map Address.write)),
   ("require_ready", .bool c.requireReady),
   ("port_range", .nat c.portRange.toNat)]

/-! ### Writing -/

/-- A value, unless one of some durations is too long. The first one is the error. -/
def unlessLong {α : Type} (durations : List Duration) (a : α) : Except Unstorable α :=
  match durations.find? fun d => decide d.Long with
  | some d => .error ⟨d⟩
  | none => .ok a

/-- A duration is written before others. -/
theorem durationValue_bind {α : Type} {d : Duration} {durations : List Duration}
    {next : Value → Except Unstorable α} {a : α}
    (h : next (.string d.stored) = unlessLong durations a) :
    durationValue d >>= next = unlessLong (d :: durations) a := by
  unfold durationValue unlessLong
  rw [Duration.toStored?_eq]
  by_cases long : d.Long
  · rw [if_pos long, List.find?_cons_of_pos (by simpa using long)]
    rfl
  · rw [if_neg long, List.find?_cons_of_neg (by simpa using long)]
    exact h

/-- **Settings are written unless a duration is too long**; the first such one is the error. -/
theorem toValue_eq (c : Config) : c.toValue = unlessLong c.durations (.object c.storedMembers) := by
  unfold toValue durations
  iterate 8 refine durationValue_bind ?_
  rfl

theorem exists_error_iff {α : Type} {durations : List Duration} {a : α} :
    (∃ u, unlessLong durations a = .error u) ↔ ∃ d ∈ durations, d.Long := by
  unfold unlessLong
  split
  · next d found =>
    have long : d.Long := by simpa using List.find?_some found
    exact iff_of_true ⟨_, rfl⟩ ⟨d, List.mem_of_find?_eq_some found, long⟩
  · next none =>
    have short : ∀ d ∈ durations, ¬ d.Long := by simpa using none
    exact iff_of_false nofun fun ⟨d, hd, long⟩ => short d hd long

theorem unlessLong_of_short {α : Type} {durations : List Duration} {a : α}
    (short : ∀ d ∈ durations, ¬ d.Long) : unlessLong durations a = .ok a := by
  unfold unlessLong
  rw [List.find?_eq_none.2 fun d hd => by simpa using short d hd]

/-! ### Reading -/

theorem countOf?_nat (count : UInt32) : countOf? (Value.nat count.toNat).tree = some count := by
  rw [countOf?, natUpTo?_nat (Nat.le_sub_one_of_lt count.toNat_lt)]
  exact congrArg some UInt32.ofNat_toNat

theorem addressOf?_write (a : Address) : addressOf? (Value.string a.write).tree = some a := by
  show (Tree.text? _).bind _ = _
  rw [text?_string, Option.bind_some, Address.read?_write]

/-- The fields of a structure give these settings. -/
structure Holds (f : Fields) (c : Config) : Prop where
  selector : f.get? "selector" Selector.ofTree? = some c.selector
  queryInterval : f.get? "query_interval" Duration.ofTree? = some c.queryInterval
  initialDelay : f.get? "initial_delay" Duration.ofTree? = some c.initialDelay
  connectTimeout : f.get? "connect_timeout" Duration.ofTree? = some c.connectTimeout
  readTimeout : f.get? "read_timeout" Duration.ofTree? = some c.readTimeout
  operationAttempts : f.get? "operation_attempts" countOf? = some c.operationAttempts
  operationSleep : f.get? "operation_sleep" Duration.ofTree? = some c.operationSleep
  minConnectTime : f.get? "min_connect_time" Duration.ofTree? = some c.minConnectTime
  initialReconnectDelay :
    f.get? "initial_reconnect_delay" Duration.ofTree? = some c.initialReconnectDelay
  maxReconnectDelay : f.get? "max_reconnect_delay" Duration.ofTree? = some c.maxReconnectDelay
  maxReconnectAttempts : f.get? "max_reconnect_attempts" countOf? = some c.maxReconnectAttempts
  splitDuringRollingUpdate :
    f.get? "split_clusters_during_rolling_update" Tree.bool? = some c.splitDuringRollingUpdate
  localAddress : f.getD? "local_address" (Tree.option? addressOf?) none = some c.localAddress
  requireReady : f.get? "require_ready" Tree.bool? = some c.requireReady
  portRange : f.get? "port_range" Record.portOf? = some c.portRange

/-- Settings are read if and only if the fields give them. -/
theorem ofTree?_eq_some_iff {t : Tree} {c : Config} : ofTree? t = some c ↔
    ∃ f, Fields.ofTree? fieldNames fieldNames.length t = some f ∧ Holds f c := by
  unfold ofTree?
  constructor
  · intro h
    obtain ⟨f, fields, h⟩ := Option.bind_eq_some_iff.1 h
    obtain ⟨_, selector, h⟩ := Option.bind_eq_some_iff.1 h
    obtain ⟨_, queryInterval, h⟩ := Option.bind_eq_some_iff.1 h
    obtain ⟨_, initialDelay, h⟩ := Option.bind_eq_some_iff.1 h
    obtain ⟨_, connectTimeout, h⟩ := Option.bind_eq_some_iff.1 h
    obtain ⟨_, readTimeout, h⟩ := Option.bind_eq_some_iff.1 h
    obtain ⟨_, operationAttempts, h⟩ := Option.bind_eq_some_iff.1 h
    obtain ⟨_, operationSleep, h⟩ := Option.bind_eq_some_iff.1 h
    obtain ⟨_, minConnectTime, h⟩ := Option.bind_eq_some_iff.1 h
    obtain ⟨_, initialReconnectDelay, h⟩ := Option.bind_eq_some_iff.1 h
    obtain ⟨_, maxReconnectDelay, h⟩ := Option.bind_eq_some_iff.1 h
    obtain ⟨_, maxReconnectAttempts, h⟩ := Option.bind_eq_some_iff.1 h
    obtain ⟨_, splitDuringRollingUpdate, h⟩ := Option.bind_eq_some_iff.1 h
    obtain ⟨_, localAddress, h⟩ := Option.bind_eq_some_iff.1 h
    obtain ⟨_, requireReady, h⟩ := Option.bind_eq_some_iff.1 h
    obtain ⟨_, portRange, h⟩ := Option.bind_eq_some_iff.1 h
    obtain rfl := Option.some.inj h
    exact ⟨f, fields, { selector, queryInterval, initialDelay, connectTimeout, readTimeout,
                        operationAttempts, operationSleep, minConnectTime, initialReconnectDelay,
                        maxReconnectDelay, maxReconnectAttempts, splitDuringRollingUpdate,
                        localAddress, requireReady, portRange }⟩
  · rintro ⟨f, fields, h⟩
    have next : ∀ {α : Type} {x : Option α} {a : α} {rest : α → Option Config}, x = some a →
        rest a = some c → x.bind rest = some c :=
      fun read rest => Option.bind_eq_some_iff.2 ⟨_, read, rest⟩
    exact next fields <| next h.selector <| next h.queryInterval <| next h.initialDelay <|
      next h.connectTimeout <| next h.readTimeout <| next h.operationAttempts <|
      next h.operationSleep <| next h.minConnectTime <| next h.initialReconnectDelay <|
      next h.maxReconnectDelay <| next h.maxReconnectAttempts <| next h.splitDuringRollingUpdate <|
      next h.localAddress <| next h.requireReady <| next h.portRange rfl

/-- **What is written for settings reads back with whole milliseconds.** -/
theorem ofTree?_members {c : Config} (short : ∀ d ∈ c.durations, ¬ d.Long) :
    ofTree? (Value.object c.storedMembers).tree = some c.wholeMillis := by
  obtain ⟨f, fields, find⟩ := ofTree?_object c.storedMembers fieldNames fieldNames.length
    rfl (by decide)
  have get : ∀ {α : Type} {name : String} {v : Value} {value : Tree → Option α} {a : α},
      (name, v) ∈ c.storedMembers → value v.tree = some a → f.get? name value = some a :=
    fun there read => Fields.get?_eq_some (find _ _ there) read
  have span : ∀ {name : String} {d : Duration}, (name, .string d.stored) ∈ c.storedMembers →
      d ∈ c.durations → f.get? name Duration.ofTree? = some d.wholeMillis :=
    fun there mem => get there (Duration.ofTree?_stored (short _ mem))
  refine ofTree?_eq_some_iff.2 ⟨f, fields, ?_⟩
  exact {
    selector := get (by simp [storedMembers]) c.selector.ofTree?_toValue
    queryInterval := span (d := c.queryInterval) (by simp [storedMembers]) (by simp [durations])
    initialDelay := span (d := c.initialDelay) (by simp [storedMembers]) (by simp [durations])
    connectTimeout := span (d := c.connectTimeout) (by simp [storedMembers]) (by simp [durations])
    readTimeout := span (d := c.readTimeout) (by simp [storedMembers]) (by simp [durations])
    operationAttempts := get (by simp [storedMembers]) (countOf?_nat c.operationAttempts)
    operationSleep := span (d := c.operationSleep) (by simp [storedMembers]) (by simp [durations])
    minConnectTime := span (d := c.minConnectTime) (by simp [storedMembers]) (by simp [durations])
    initialReconnectDelay :=
      span (d := c.initialReconnectDelay) (by simp [storedMembers]) (by simp [durations])
    maxReconnectDelay := span (d := c.maxReconnectDelay) (by simp [storedMembers]) (by simp [durations])
    maxReconnectAttempts := get (by simp [storedMembers]) (countOf?_nat c.maxReconnectAttempts)
    splitDuringRollingUpdate := get (by simp [storedMembers]) (bool?_bool c.splitDuringRollingUpdate)
    localAddress := Fields.getD?_eq_some (find _ _ (by simp [storedMembers]))
      (option?_optionText Address.write addressOf?_write c.localAddress)
    requireReady := get (by simp [storedMembers]) (bool?_bool c.requireReady)
    portRange := get (by simp [storedMembers]) (portOf?_nat c.portRange) }

/-- **Settings that are read have only durations that can be stored without loss.** -/
theorem whole_of_ofTree? {t : Tree} {c : Config} (h : ofTree? t = some c) :
    ∀ d ∈ c.durations, d.Whole := by
  obtain ⟨f, -, holds⟩ := ofTree?_eq_some_iff.1 h
  have read : ∀ {name : String} {d : Duration}, f.get? name Duration.ofTree? = some d → d.Whole := by
    intro name d h
    obtain ⟨t, -, read⟩ := Option.bind_eq_some_iff.1 h
    exact Duration.whole_of_ofTree? read
  simp only [durations, List.forall_mem_cons]
  exact ⟨read holds.queryInterval, read holds.initialDelay, read holds.connectTimeout,
    read holds.readTimeout, read holds.operationSleep, read holds.minConnectTime,
    read holds.initialReconnectDelay, read holds.maxReconnectDelay, nofun⟩

/-! ### Both ways -/

/-- Settings in whole milliseconds lose nothing. -/
theorem wholeMillis_of_dvd {c : Config} (whole : ∀ d ∈ c.durations, Duration.milli ∣ d.nanos) :
    c.wholeMillis = c := by
  simp only [durations, List.forall_mem_cons] at whole
  obtain ⟨h₁, h₂, h₃, h₄, h₅, h₆, h₇, h₈, -⟩ := whole
  simp only [wholeMillis, Duration.wholeMillis_of_dvd h₁, Duration.wholeMillis_of_dvd h₂,
    Duration.wholeMillis_of_dvd h₃, Duration.wholeMillis_of_dvd h₄, Duration.wholeMillis_of_dvd h₅,
    Duration.wholeMillis_of_dvd h₆, Duration.wholeMillis_of_dvd h₇, Duration.wholeMillis_of_dvd h₈]

/-- **Settings without a long duration are stored, and read back with whole milliseconds.** -/
theorem ofJson?_of_short {c : Config} (short : ∀ d ∈ c.durations, ¬ d.Long) :
    ∃ text, c.toJson = .ok text ∧ ofJson? text = some c.wholeMillis := by
  refine ⟨(Value.object c.storedMembers).text, ?_, ?_⟩
  · rw [toJson, toValue_eq, unlessLong_of_short short]
    rfl
  · unfold ofJson?
    rw [ofBytes?_text, Option.bind_eq_bind, Option.bind_some, ofTree?_members short]

theorem toJson_fails_iff {c : Config} : (∃ u, c.toJson = .error u) ↔ ∃ d ∈ c.durations, d.Long := by
  have values : (∃ u, c.toJson = .error u) ↔ ∃ u, c.toValue = .error u := by
    unfold toJson
    cases c.toValue <;> simp [Except.map]
  rw [values, toValue_eq, exists_error_iff]

/-- **Settings survive storage.** They cannot be stored if and only if one of their eight durations
has `2^64` milliseconds or more. Otherwise the text reads back as the same settings with every duration
rounded down to whole milliseconds, so as the same settings if all durations are whole already.
Settings that were read from any text can be stored and read back as they are. -/
theorem settings_survive_storage (c : Config) :
    ((∃ u, c.toJson = .error u) ↔ ∃ d ∈ c.durations, 2 ^ 64 * Duration.milli ≤ d.nanos) ∧
    ((∀ d ∈ c.durations, d.nanos < 2 ^ 64 * Duration.milli) →
      ∃ text, c.toJson = .ok text ∧ ofJson? text = some c.wholeMillis) ∧
    ((∀ d ∈ c.durations, Duration.milli ∣ d.nanos) → c.wholeMillis = c) ∧
    ∀ text, ofJson? text = some c → ∃ stored, c.toJson = .ok stored ∧ ofJson? stored = some c := by
  refine ⟨toJson_fails_iff, fun small => ?_, wholeMillis_of_dvd, fun text read => ?_⟩
  · exact ofJson?_of_short fun d hd => Nat.not_le_of_lt (small d hd)
  · obtain ⟨t, -, read⟩ := Option.bind_eq_some_iff.1 read
    have whole := whole_of_ofTree? read
    obtain ⟨stored, written, back⟩ := ofJson?_of_short fun d hd => (whole d hd).short
    rw [wholeMillis_of_dvd fun d hd => (whole d hd).dvd] at back
    exact ⟨stored, written, back⟩

/-- Settings with quotes, control characters and letters beyond ASCII. Half a millisecond of the
interval cannot be stored. -/
def unusual : Config :=
  { standard with
    selector := .pods "a \"b\"\\\n\x01" (some "größe in (é, 日)")
    queryInterval := .ofNanos 2500500000
    localAddress := some (.v6 ⟨[0xfe80, 0, 0, 0, 0, 0, 0, 1], rfl⟩) }

/-- It is lost when they are stored, and nothing more when they are stored again. With the longest
interval they cannot be stored. -/
theorem unusual_is_rounded_once :
    unusual.wholeMillis = { unusual with queryInterval := .ofMillis 2500 } ∧
    (∃ text, unusual.toJson = .ok text ∧ ofJson? text = some unusual.wholeMillis) ∧
    unusual.wholeMillis.wholeMillis = unusual.wholeMillis ∧
    (∃ text, unusual.wholeMillis.toJson = .ok text ∧ ofJson? text = some unusual.wholeMillis) ∧
    ∃ u, { unusual with queryInterval := .max }.toJson = .error u := by
  obtain ⟨-, stores, -, -⟩ := settings_survive_storage unusual
  obtain ⟨-, -, keeps, again⟩ := settings_survive_storage unusual.wholeMillis
  obtain ⟨fails, -, -, -⟩ := settings_survive_storage { unusual with queryInterval := .max }
  obtain ⟨text, written, back⟩ := stores (by decide)
  exact ⟨by decide, ⟨text, written, back⟩, keeps (by decide), again text back,
    fails.2 ⟨.max, by decide, by decide⟩⟩

end Config

end Roster
