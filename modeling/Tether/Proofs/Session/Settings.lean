import Mathlib.Data.List.Nodup
import Tether.Proofs.Json.RoundTrip
import Tether.Session.Settings.Document

namespace Tether

namespace Json

theorem natBelow?_ofNat {n limit : Nat} (small : n < limit) :
    natBelow? limit (.number (.ofNat n)) = some n := by
  simp only [natBelow?, JsonNumber.toNat?_ofNat, bind, Option.bind, if_pos small]

variable {fields : List (JsonText × Json)} {entries kept others : List (String × Json)}
  {name : String} {written : Json}

theorem filter_named (entries : List (String × Json)) (name : String) :
    ((named entries).filter fun field => field.1 == some name) =
      named (entries.filter fun entry => entry.1 == name) :=
  List.filter_map

theorem filter_name_eq (distinct : (entries.map Prod.fst).Nodup)
    (member : (name, written) ∈ entries) :
    (entries.filter fun entry => entry.1 == name) = [(name, written)] := by
  induction entries with
  | nil => cases member
  | cons entry entries ih =>
    obtain ⟨unlike, distinct⟩ := List.nodup_cons.mp distinct
    rw [List.filter_cons]
    rcases List.mem_cons.mp member with rfl | later
    · have noMore : (entries.filter fun entry => entry.1 == name) = [] := by
        refine List.filter_eq_nil_iff.mpr fun other found same => unlike ?_
        exact List.mem_map.mpr ⟨other, found, eq_of_beq same⟩
      rw [if_pos (beq_self_eq_true name), noMore]
    · have other : ¬(entry.1 == name) = true := by
        intro same
        exact unlike (List.mem_map.mpr ⟨(name, written), later, (eq_of_beq same).symm⟩)
      rw [if_neg other, ih distinct later]

/-- An entry is found by its name among shuffled fields with other names, unless it was left out. -/
theorem field?_of_perm (shuffled : fields.Perm (named (kept ++ others)))
    (part : kept.Sublist entries) (distinct : (entries.map Prod.fst).Nodup)
    (unknown : ∀ other ∈ others, other.1 ≠ name) (member : (name, written) ∈ entries) :
    field? fields name = some (some written) ∨
      field? fields name = some none ∧ (name, written) ∉ kept := by
  have noOther : (others.filter fun entry => entry.1 == name) = [] :=
    List.filter_eq_nil_iff.mpr fun other found same => unknown other found (eq_of_beq same)
  have found := shuffled.filter fun field => field.1 == some name
  rw [filter_named, List.filter_append, noOther, List.append_nil] at found
  have atMost := part.filter fun entry => entry.1 == name
  rw [filter_name_eq distinct member] at atMost
  rcases List.sublist_singleton.mp atMost with missing | there
  · rw [missing] at found
    rw [field?, found.eq_nil]
    refine Or.inr ⟨rfl, fun isKept => ?_⟩
    exact absurd (beq_self_eq_true name) (List.filter_eq_nil_iff.mp missing _ isKept)
  · rw [there] at found
    rw [field?, List.perm_singleton.mp found]
    exact Or.inl rfl

theorem namesAreText_of_perm (shuffled : fields.Perm (named entries)) : namesAreText fields := by
  refine List.all_eq_true.mpr fun field member => ?_
  obtain ⟨entry, _, rfl⟩ := List.mem_map.mp (shuffled.mem_iff.mp member)
  rfl

end Json

/-- Whether a double is read back from the number that is written of it. -/
def Binary64.ReadsBack (double : Binary64) : Prop :=
  ∀ number ∈ JsonNumber.ofBinary64? double, number.toBinary64? = some double

theorem Binary64.readsBack_of_shortest {negative : Bool} {units coefficient : Nat} {exponent : Int}
    (positive : units ≠ 0)
    (shortest : JsonNumber.shortest units (JsonNumber.leadingPlace units) JsonNumber.mostDigits =
      (coefficient, exponent))
    (trimmed : coefficient % 10 ≠ 0)
    (read : (JsonNumber.layout negative coefficient exponent).toBinary64? =
      some (.finite negative units)) : (Binary64.finite negative units).ReadsBack := by
  have keeps : JsonNumber.trimZeros coefficient exponent = (coefficient, exponent) := by
    rw [JsonNumber.trimZeros, if_neg fun zeros => trimmed zeros.2]
  intro number written
  unfold JsonNumber.ofBinary64? at written
  simp only [if_neg positive, shortest, keeps] at written
  rw [← Option.some.inj written]
  exact read

namespace Session.Settings

open Time (Interval)

private theorem ite_some_eq_none {α : Type} {p : Prop} [Decidable p] {first : α}
    {others : Option α} : (if p then some first else others) = none ↔ ¬p ∧ others = none := by
  split
  · rename_i holds
    simp [holds]
  · rename_i fails
    simp [fails]

theorem flaw?_eq_none_iff {settings : Settings} : settings.flaw? = none ↔
    settings.sweepInterval.nanos ≠ 0 ∧
    (∀ interval ∈ settings.clockSyncInterval, interval.nanos ≠ 0) ∧
    settings.maxQueuedMessages ≠ 0 ∧
    (∀ weight ∈ settings.clockSmoothing, isWeight weight = true) ∧
    isGrowing settings.reconnect = true := by
  simp [flaw?, ite_some_eq_none, Option.any_eq_false]

theorem isFinite_of_isWeight {weight : Binary64} (isWeight : isWeight weight = true) :
    weight.isFinite = true := by
  cases weight with
  | nan => cases isWeight
  | infinite negative => cases negative <;> exact absurd isWeight (by decide)
  | finite negative units => rfl

theorem ofParts?_parts (interval : Interval) :
    Interval.ofParts? interval.seconds interval.subsecond = some interval := by
  have whole : interval.seconds * Time.nanosPerSecond + interval.subsecond = interval.nanos :=
    Nat.div_add_mod' interval.nanos Time.nanosPerSecond
  rw [Interval.ofParts?, dif_pos (whole ▸ interval.seconds_lt)]
  obtain ⟨nanos, small⟩ := interval
  exact congrArg some ((Interval.mk.injEq ..).mpr whole)

theorem readInterval_object (seconds nanos : Json) :
    readInterval (.object [(some "secs", seconds), (some "nanos", nanos)]) =
      (seconds.natBelow? UInt64.size).bind fun seconds =>
        (nanos.natBelow? UInt32.size).bind fun nanos => Interval.ofParts? seconds nanos := rfl

theorem readInterval_writeInterval (interval : Interval) :
    readInterval (writeInterval interval) = some interval := by
  have seconds : interval.seconds < UInt64.size :=
    Nat.div_lt_of_lt_mul (Nat.mul_comm _ _ ▸ interval.seconds_lt)
  have subsecond : interval.subsecond < UInt32.size :=
    Nat.lt_trans (Nat.mod_lt _ (show 0 < Time.nanosPerSecond by decide)) (by decide)
  rw [writeInterval, readInterval_object, Json.natBelow?_ofNat seconds,
    Json.natBelow?_ofNat subsecond, Option.bind_some, Option.bind_some, ofParts?_parts]

theorem writeInterval_ne_null (interval : Interval) : writeInterval interval ≠ .null := by
  intro same
  cases same

theorem readOptional_writeOptional {α : Type} {read : Json → Option α} {write : α → Json}
    {part : Option α} (isValue : ∀ value ∈ part, write value ≠ .null)
    (reads : ∀ value ∈ part, read (write value) = some value) :
    readOptional read (writeOptional write part) = some part := by
  cases part with
  | none => rfl
  | some value =>
    unfold readOptional writeOptional
    split
    · rename_i null
      exact absurd null (isValue value rfl)
    · rw [reads value rfl]
      rfl

theorem readOptional_writeInterval (part : Option Interval) :
    readOptional readInterval (writeOptional writeInterval part) = some part :=
  readOptional_writeOptional (fun interval _ => writeInterval_ne_null interval)
    fun interval _ => readInterval_writeInterval interval

theorem writeDouble_eq {double : Binary64} (finite : double.isFinite = true) :
    ∃ number ∈ JsonNumber.ofBinary64? double, writeDouble double = .number number := by
  have isNumber : (JsonNumber.ofBinary64? double).isSome = true := by
    cases double with
    | nan => cases finite
    | infinite negative => cases finite
    | finite negative units =>
      unfold JsonNumber.ofBinary64?
      dsimp only
      split <;> rfl
  obtain ⟨number, written⟩ := Option.isSome_iff_exists.mp isNumber
  exact ⟨number, written, by rw [writeDouble, written]; rfl⟩

theorem writeDouble_ne_null {double : Binary64} (finite : double.isFinite = true) :
    writeDouble double ≠ .null := by
  obtain ⟨number, _, same⟩ := writeDouble_eq finite
  rw [same]
  intro null
  cases null

theorem readDouble_writeDouble {double : Binary64} (finite : double.isFinite = true)
    (readsBack : double.ReadsBack) : readDouble (writeDouble double) = some double := by
  obtain ⟨number, written, same⟩ := writeDouble_eq finite
  rw [same]
  exact readsBack number written

theorem readCount_writeCount (count : UInt64) : readCount (writeCount count) = some count := by
  rw [readCount, writeCount, Json.natBelow?_ofNat count.toNat_lt]
  exact congrArg some (UInt64.ofNat_toNat)

theorem readBackoff_writeBackoff {policy : Backoff} (grows : isGrowing policy = true)
    (readsBack : ∀ initial ceiling multiplier,
      policy = .exponential initial ceiling multiplier → multiplier.ReadsBack) :
    readBackoff (writeBackoff policy) = some policy := by
  cases policy with
  | fixed delay =>
    have parts : readFields ["delay"] (.object [(some "delay", writeInterval delay)]) =
        some [writeInterval delay] := rfl
    simp [writeBackoff, readBackoff, parts, readInterval_writeInterval]
  | exponential initial ceiling multiplier =>
    have parts : readFields ["initial", "max", "multiplier"] (.object
        [(some "initial", writeInterval initial), (some "max", writeInterval ceiling),
          (some "multiplier", writeDouble multiplier)]) =
        some [writeInterval initial, writeInterval ceiling, writeDouble multiplier] := rfl
    have finite : multiplier.isFinite = true := (Bool.and_eq_true_iff.mp grows).1
    have multiplierRead := readDouble_writeDouble finite (readsBack _ _ _ rfl)
    simp [writeBackoff, readBackoff, parts, readInterval_writeInterval, multiplierRead]

/-- The doubles among the settings are read back from the numbers that are written of them. -/
structure Readable (settings : Settings) : Prop where
  smoothing : ∀ weight ∈ settings.clockSmoothing, weight.ReadsBack
  multiplier : ∀ initial ceiling multiplier,
    settings.reconnect = .exponential initial ceiling multiplier → multiplier.ReadsBack

theorem readable_standard : standard.Readable where
  smoothing weight isSome := by cases isSome
  multiplier initial ceiling multiplier same := by cases same

/-- Whether the settings are found under the names of their fields, or not at all where they are
the standard ones. -/
def Found (value : String → Option (Option Json)) (settings : Settings) : Prop :=
  ∀ entry ∈ settings.entries, value entry.1 = some (some entry.2) ∨
    value entry.1 = some none ∧ entry ∈ standard.entries

theorem names_distinct (settings : Settings) : (settings.entries.map Prod.fst).Nodup := by
  change fieldNames.Nodup
  decide

variable {settings : Settings}

/-- One setting is read if it is found, and is the standard one if not. -/
theorem readOr_of_found {α : Type} (name : String) (part : Settings → α) (read : Json → Option α)
    (write : α → Json) {value : String → Option (Option Json)}
    (isEntry : ∀ settings : Settings, (name, write (part settings)) ∈ settings.entries)
    (reads : read (write (part settings)) = some (part settings))
    (readsStandard : read (write (part standard)) = some (part standard))
    (found : Found value settings) :
    ∃ given, value name = some given ∧ readOr read (part standard) given = some (part settings) := by
  rcases found _ (isEntry settings) with there | ⟨missing, isStandard⟩
  · exact ⟨_, there, reads⟩
  · refine ⟨none, missing, ?_⟩
    have same := List.inj_on_of_nodup_map (names_distinct standard) isStandard (isEntry standard) rfl
    rw [(Prod.mk.inj same).2, readsStandard] at reads
    exact reads

theorem ofValues_of_found (valid : settings.flaw? = none) (readable : settings.Readable)
    {value : String → Option (Option Json)} (found : Found value settings) :
    ofValues value = some settings := by
  obtain ⟨_, _, _, weights, grows⟩ := flaw?_eq_none_iff.mp valid
  have isFinite := fun weight member => isFinite_of_isWeight (weights weight member)
  have smoothing : readOptional readDouble (writeOptional writeDouble settings.clockSmoothing) =
      some settings.clockSmoothing :=
    readOptional_writeOptional (fun weight member => writeDouble_ne_null (isFinite weight member))
      fun weight member => readDouble_writeDouble (isFinite weight member)
        (readable.smoothing weight member)
  obtain ⟨_, backoffGiven, backoffRead⟩ := readOr_of_found "reconnect" reconnect
    readBackoff writeBackoff (fun _ => by simp [entries])
    (readBackoff_writeBackoff grows readable.multiplier)
    (readBackoff_writeBackoff rfl readable_standard.multiplier) found
  obtain ⟨_, timeoutGiven, timeoutRead⟩ := readOr_of_found "request_timeout" requestTimeout
    (readOptional readInterval) (writeOptional writeInterval) (fun _ => by simp [entries])
    (readOptional_writeInterval _) (readOptional_writeInterval _) found
  obtain ⟨_, sweepGiven, sweepRead⟩ := readOr_of_found "sweep_interval" sweepInterval
    readInterval writeInterval (fun _ => by simp [entries])
    (readInterval_writeInterval _) (readInterval_writeInterval _) found
  obtain ⟨_, resendGiven, resendRead⟩ := readOr_of_found "resend_unanswered" resendUnanswered
    readFlag .bool (fun _ => by simp [entries]) rfl rfl found
  obtain ⟨_, syncGiven, syncRead⟩ := readOr_of_found "clock_sync_interval" clockSyncInterval
    (readOptional readInterval) (writeOptional writeInterval) (fun _ => by simp [entries])
    (readOptional_writeInterval _) (readOptional_writeInterval _) found
  obtain ⟨_, smoothingGiven, smoothingRead⟩ := readOr_of_found "clock_smoothing" clockSmoothing
    (readOptional readDouble) (writeOptional writeDouble) (fun _ => by simp [entries])
    smoothing rfl found
  obtain ⟨_, queuedGiven, queuedRead⟩ := readOr_of_found "max_queued_messages" maxQueuedMessages
    readCount writeCount (fun _ => by simp [entries])
    (readCount_writeCount _) (readCount_writeCount _) found
  simp only [ofValues, backoffGiven, backoffRead, timeoutGiven, timeoutRead, sweepGiven, sweepRead,
    resendGiven, resendRead, syncGiven, syncRead, smoothingGiven, smoothingRead, queuedGiven,
    queuedRead, bind, Option.bind]
  rfl

/-- Whether fields present settings: entries of theirs in any order, among any fields with other
names. An entry may be missing where the standard settings have the same. -/
def Presents (fields : List (JsonText × Json)) (settings : Settings) : Prop :=
  ∃ kept others : List (String × Json), fields.Perm (Json.named (kept ++ others)) ∧
    kept.Sublist settings.entries ∧
    (∀ entry ∈ settings.entries, entry ∉ kept → entry ∈ standard.entries) ∧
    ∀ other ∈ others, other.1 ∉ fieldNames

theorem presents_entries (settings : Settings) :
    Presents (Json.named settings.entries) settings := by
  refine ⟨settings.entries, [], ?_, List.Sublist.refl _, ?_, List.forall_mem_nil _⟩
  · rw [List.append_nil]
  · intro entry member missing
    exact absurd member missing

variable {fields : List (JsonText × Json)}

theorem found_of_presents (presents : Presents fields settings) :
    Found (Json.field? fields) settings := by
  intro entry member
  obtain ⟨kept, others, shuffled, part, standardMissing, unknown⟩ := presents
  have isName : entry.1 ∈ fieldNames := List.mem_map.mpr ⟨entry, member, rfl⟩
  have otherName : ∀ other ∈ others, other.1 ≠ entry.1 := by
    intro other isOther same
    exact unknown other isOther (same ▸ isName)
  rcases Json.field?_of_perm shuffled part (names_distinct settings) otherName member with
    there | ⟨missing, leftOut⟩
  · exact Or.inl there
  · exact Or.inr ⟨missing, standardMissing entry member leftOut⟩

theorem ofJson_of_presents (valid : settings.flaw? = none) (readable : settings.Readable)
    (presents : Presents fields settings) : ofJson (.object fields) = some settings := by
  have named : Json.namesAreText fields = true := by
    obtain ⟨kept, others, shuffled, _⟩ := presents
    exact Json.namesAreText_of_perm shuffled
  rw [ofJson, if_pos named]
  exact ofValues_of_found valid readable (found_of_presents presents)

theorem load_of_presents (valid : settings.flaw? = none) (readable : settings.Readable)
    (presents : Presents fields settings) {document : String}
    (parsed : Json.parse? document = some (.object fields)) : load document = .ok settings := by
  have same : parse? document = some settings := by
    rw [parse?, parsed]
    exact ofJson_of_presents valid readable presents
  simp only [load, same, valid]

theorem wellFormed_writeInterval (interval : Interval) : (writeInterval interval).WellFormed :=
  ⟨JsonNumber.wellFormed_ofNat _, JsonNumber.wellFormed_ofNat _, trivial⟩

theorem wellFormed_writeDouble (double : Binary64) : (writeDouble double).WellFormed := by
  unfold writeDouble
  cases written : JsonNumber.ofBinary64? double with
  | none => trivial
  | some number => exact JsonNumber.wellFormed_ofBinary64? written

theorem wellFormed_writeOptional {α : Type} {write : α → Json}
    (each : ∀ value, (write value).WellFormed) (part : Option α) :
    (writeOptional write part).WellFormed := by
  cases part with
  | none => trivial
  | some value => exact each value

theorem wellFormed_writeBackoff (policy : Backoff) : (writeBackoff policy).WellFormed := by
  cases policy with
  | fixed delay => exact ⟨⟨wellFormed_writeInterval delay, trivial⟩, trivial⟩
  | exponential initial ceiling multiplier =>
    exact ⟨⟨wellFormed_writeInterval initial, wellFormed_writeInterval ceiling,
      wellFormed_writeDouble multiplier, trivial⟩, trivial⟩

theorem wellFormed_toJson (settings : Settings) : settings.toJson.WellFormed :=
  ⟨wellFormed_writeBackoff _, wellFormed_writeOptional wellFormed_writeInterval _,
    wellFormed_writeInterval _, trivial, wellFormed_writeOptional wellFormed_writeInterval _,
    wellFormed_writeOptional wellFormed_writeDouble _, JsonNumber.wellFormed_ofNat _, trivial⟩

/-- The document that is written of valid settings gives these settings, and so does every document
that presents them, in whatever text. -/
theorem load_presented (valid : settings.flaw? = none) (readable : settings.Readable) :
    load settings.toJson.render = .ok settings ∧
    ∀ fields, Presents fields settings →
      (∀ document, Json.parse? document = some (.object fields) →
        load document = .ok settings) ∧
      ((∀ field ∈ fields, field.2.WellFormed) →
        load (Json.object fields).render = .ok settings) := by
  refine ⟨?_, fun fields presents => ⟨fun document => load_of_presents valid readable presents, ?_⟩⟩
  · have parsed := Json.parse?_render (wellFormed_toJson settings)
    exact load_of_presents valid readable (presents_entries settings) parsed
  · intro wellFormed
    have parsed : Json.parse? (Json.object fields).render = some (.object fields) :=
      Json.parse?_render (Json.fieldsWellFormed_iff.mpr wellFormed)
    exact load_of_presents valid readable presents parsed

/-- A delay that doubles, no time limit for requests, and every measurement of the clock counts
for one half. -/
def patient : Settings :=
  { standard with
    reconnect := .exponential (.ofMillis 100) (.ofSeconds 5) (.finite false (1 <<< 1075))
    requestTimeout := none
    clockSmoothing := some (.finite false (1 <<< 1073)) }

theorem readable_patient : patient.Readable where
  smoothing weight member := by
    have scaled : JsonNumber.scale (.ofNat 5) (-1) = some (.finite false (1 <<< 1073)) := by
      rw [JsonNumber.scale, if_pos (by decide), if_neg (by decide)]
      decide +kernel
    have read : (JsonNumber.layout false 5 (-1)).toBinary64? = some (.finite false (1 <<< 1073)) := by
      change (JsonNumber.scale (.ofNat 5) (-1)).bind _ = _
      rw [scaled]
      rfl
    rw [← Option.some.inj member]
    exact Binary64.readsBack_of_shortest (by decide +kernel) (by decide +kernel) (by decide) read
  multiplier initial ceiling multiplier same := by
    have scaled : JsonNumber.scale (.ofNat 20) (-1) = some (.finite false (1 <<< 1075)) := by
      rw [JsonNumber.scale, if_pos (by decide), if_neg (by decide)]
      decide +kernel
    have read : (JsonNumber.layout false 2 0).toBinary64? = some (.finite false (1 <<< 1075)) := by
      change (JsonNumber.scale (.ofNat 20) (-1)).bind _ = _
      rw [scaled]
      rfl
    rw [← (Backoff.exponential.inj same).2.2]
    exact Binary64.readsBack_of_shortest (by decide +kernel) (by decide +kernel) (by decide) read

def patientEntries : List (String × Json) :=
  [ ("reconnect", writeBackoff patient.reconnect), ("request_timeout", .null),
    ("clock_smoothing", writeOptional writeDouble patient.clockSmoothing) ]

/-- These entries backwards, after a field with another name. -/
def patientFields : List (JsonText × Json) :=
  (Json.named (patientEntries ++
    [("comment", .array [.string none, .object [(some "delay", .null)]])])).reverse

theorem presents_patient : Presents patientFields patient := by
  refine ⟨patientEntries, [("comment", .array [.string none, .object [(some "delay", .null)]])],
    List.reverse_perm _, ?_, ?_, ?_⟩
  · have kept : patientEntries = patient.entries.filter fun entry =>
      entry.1 ∈ ["reconnect", "request_timeout", "clock_smoothing"] := rfl
    rw [kept]
    exact List.filter_sublist
  · simp [entries, patientEntries, patient, standard, writeOptional]
  · decide

theorem wellFormed_patientFields : ∀ field ∈ patientFields, field.2.WellFormed := by
  have comment : (Json.array [.string none, .object [(some "delay", .null)]]).WellFormed := by
    simp [Json.WellFormed, Json.ItemsWellFormed, Json.FieldsWellFormed]
  have null : Json.null.WellFormed := trivial
  simp [patientFields, patientEntries, Json.named, comment, null, wellFormed_writeBackoff,
    wellFormed_writeOptional wellFormed_writeDouble]

/-- The document that is written is read, and so is one with some of the fields, in another
order. -/
theorem load_presented_patient :
    patient.flaw? = none ∧ patient.Readable ∧ Presents patientFields patient ∧
      (∀ field ∈ patientFields, field.2.WellFormed) ∧
      load patient.toJson.render = .ok patient ∧
      load (Json.object patientFields).render = .ok patient := by
  have valid : patient.flaw? = none := by decide +kernel
  obtain ⟨written, presented⟩ := load_presented valid readable_patient
  exact ⟨valid, readable_patient, presents_patient, wellFormed_patientFields, written,
    (presented patientFields presents_patient).2 wellFormed_patientFields⟩

end Session.Settings

end Tether
