import CallTrace.Proofs.Settings
import CallTrace.Proofs.Text.Decimal
import CallTrace.Settings.Environment

/-! # Settings are never guessed

Eight variables are read and may be refused, and seven requirements are checked after that.  Both are
steps in a row, of which the first that fails decides (`Tried`): a row is tried by its parts
(`Tried.bind`), so reading and checking are followed variable by variable and requirement by
requirement (`Settings.read_tried`, `Settings.check_tried`).

Settings are given by an environment if each is what its variable spells, or the default where the
variable is unset or blank (`Settings.GivenBy`).  So the environment alone tells which settings come
out, and which error comes out if there are none (`Settings.ofEnvironment_law`).  An environment holds
texts: a variable that is set to anything else counts as unset. -/

namespace CallTrace

/-! ### The first failure of a row -/

/-- The first of a row that has a property. -/
def IsFirst {ι : Type} (P : ι → Prop) (row : List ι) (i : ι) : Prop :=
  P i ∧ ∃ before after, row = before ++ i :: after ∧ ∀ j ∈ before, ¬P j

/-- The result of a row of steps: no step fails, or the first that fails says why. -/
inductive Tried {ι ε α : Type} (Fails : ι → Prop) (error : ι → ε) (row : List ι) (P : α → Prop) :
    Except ε α → Prop where
  | done {a : α} (h : P a) (hrow : ∀ i ∈ row, ¬Fails i) : Tried Fails error row P (.ok a)
  | failed {i : ι} (h : IsFirst Fails row i) : Tried Fails error row P (.error (error i))

section
variable {ι ε α β : Type} {Fails : ι → Prop} {error : ι → ε} {row rest : List ι}

theorem IsFirst.head {i : ι} (h : Fails i) : IsFirst Fails (i :: rest) i :=
  ⟨h, [], rest, rfl, by simp⟩

theorem IsFirst.append {i : ι} (h : IsFirst Fails row i) : IsFirst Fails (row ++ rest) i := by
  obtain ⟨hi, before, after, rfl, hbefore⟩ := h
  exact ⟨hi, before, after ++ rest, by simp, hbefore⟩

theorem IsFirst.skip {i : ι} (hrow : ∀ j ∈ row, ¬Fails j) (h : IsFirst Fails rest i) :
    IsFirst Fails (row ++ rest) i := by
  obtain ⟨hi, before, after, rfl, hbefore⟩ := h
  exact ⟨hi, row ++ before, after, by simp, List.forall_mem_append.mpr ⟨hrow, hbefore⟩⟩

theorem IsFirst.mem {i : ι} (h : IsFirst Fails row i) : i ∈ row := by
  obtain ⟨-, before, after, rfl, -⟩ := h
  simp

theorem IsFirst.unique {i j : ι} (hi : IsFirst Fails row i) (hj : IsFirst Fails row j) : i = j := by
  obtain ⟨hi, before, after, rfl, hbefore⟩ := hi
  obtain ⟨hj, before', after', heq, hbefore'⟩ := hj
  rcases List.append_eq_append_iff.mp heq with ⟨as, rfl, h⟩ | ⟨bs, rfl, h⟩
  · cases as with
    | nil => exact (List.cons.inj h).1
    | cons a as =>
      obtain ⟨rfl, -⟩ := List.cons.inj h
      exact absurd hi (hbefore' i (by simp))
  · cases bs with
    | nil => exact (List.cons.inj h).1.symm
    | cons b bs =>
      obtain ⟨rfl, -⟩ := List.cons.inj h
      exact absurd hj (hbefore j (by simp))

namespace Tried
variable {P : α → Prop} {Q : β → Prop} {r : Except ε α}

theorem bind {f : α → Except ε β} (h : Tried Fails error row P r)
    (hf : ∀ a, P a → Tried Fails error rest Q (f a)) : Tried Fails error (row ++ rest) Q (r >>= f) := by
  cases h with
  | failed hi => exact .failed hi.append
  | @done a ha hrow =>
    show Tried Fails error (row ++ rest) Q (f a)
    have htail := hf a ha
    generalize f a = r at htail
    cases htail with
    | done hb hrest => exact .done hb (List.forall_mem_append.mpr ⟨hrow, hrest⟩)
    | failed hi => exact .failed (hi.skip hrow)

/-- A row begins with a test. -/
theorem test {i : ι} {p : Prop} [Decidable p] (hp : p ↔ Fails i) (h : Tried Fails error rest P r) :
    Tried Fails error (i :: rest) P (if p then .error (error i) else r) := by
  split
  · next hi => exact .failed (.head (hp.mp hi))
  · next hi =>
    have hfirst : ∀ j ∈ [i], ¬Fails j := by simpa [← hp] using hi
    cases h with
    | done ha hrest => exact .done ha (List.forall_mem_append.mpr ⟨hfirst, hrest⟩)
    | failed hj => exact .failed (hj.skip hfirst)

theorem eq_ok (h : Tried Fails error row P r) (hrow : ∀ i ∈ row, ¬Fails i) : ∃ a, r = .ok a ∧ P a := by
  cases h with
  | done ha => exact ⟨_, rfl, ha⟩
  | failed hi => exact absurd hi.1 (hrow _ hi.mem)

theorem of_ok {a : α} (h : Tried Fails error row P (.ok a)) : P a ∧ ∀ i ∈ row, ¬Fails i := by
  cases h with
  | done ha hrow => exact ⟨ha, hrow⟩

theorem eq_error_iff (h : Tried Fails error row P r) {e : ε} :
    r = .error e ↔ ∃ i, IsFirst Fails row i ∧ e = error i := by
  cases h with
  | done ha hrow => exact ⟨nofun, fun ⟨i, hi, _⟩ => absurd hi.1 (hrow i hi.mem)⟩
  | @failed i hi =>
    refine ⟨fun he => ⟨i, hi, (Except.error.inj he).symm⟩, fun ⟨j, hj, he⟩ => ?_⟩
    rw [he, hi.unique hj]

end Tried
end

/-! ### Requirements -/

namespace Settings

/-- What is required of settings. -/
inductive Requirement where
  | windowSize
  | grace
  | maxRecordSize
  | reductionDepth
  | partitions
  | statusInterval
  | logLevel
deriving DecidableEq, Repr

/-- The order in which requirements are checked. -/
def Requirement.all : List Requirement :=
  [.windowSize, .grace, .maxRecordSize, .reductionDepth, .partitions, .statusInterval, .logLevel]

theorem Requirement.mem_all (r : Requirement) : r ∈ Requirement.all := by
  cases r <;> decide

def Meets (s : Settings) : Requirement → Prop
  | .windowSize => 0 < s.windowSize
  | .grace => 0 ≤ s.grace
  | .maxRecordSize => 0 < s.maxRecordSize
  | .reductionDepth => 0 ≤ s.reductionDepth
  | .partitions => 0 < s.partitions
  | .statusInterval => 0 < s.statusInterval
  | .logLevel => ∃ level : LogLevel, level.name = s.logLevel

/-- What is said about settings that do not meet a requirement. -/
def complaint (s : Settings) : Requirement → ConfigError
  | .windowSize => .invalid ("window size must be positive, got " ++ toString s.windowSize.toInt)
  | .grace => .invalid ("grace period must not be negative, got " ++ toString s.grace.toInt)
  | .maxRecordSize => .invalid "max record size must be positive"
  | .reductionDepth => .negativeDepthLimit s.reductionDepth
  | .partitions => .invalid "partition count must be greater than 0"
  | .statusInterval => .invalid "status interval must be greater than 0"
  | .logLevel => .invalid ("Invalid log level '" ++ s.logLevel
      ++ "'. Must be one of: trace, debug, info, warn, error")

theorem isNone_ofName?_iff (name : String) :
    (LogLevel.ofName? name).isNone ↔ ¬∃ level : LogLevel, level.name = name := by
  have mem_all : ∀ level : LogLevel, level ∈ LogLevel.all := by
    intro level
    cases level <;> decide
  simp [LogLevel.ofName?, mem_all]

theorem check_tried (s : Settings) :
    Tried (fun r => ¬s.Meets r) s.complaint Requirement.all (fun _ => True) s.check := by
  have hwindows : Tried (fun r => ¬s.Meets r) s.complaint [.windowSize, .grace, .maxRecordSize]
      (fun _ => True) s.windows.check :=
    .test Int64.not_lt.symm <| .test Int64.not_le.symm <| .test Nat.pos_iff_ne_zero.not_left.symm <|
      .done trivial (by simp)
  refine hwindows.bind fun _ _ => ?_
  show Tried (fun r => ¬s.Meets r) s.complaint [.reductionDepth, .partitions, .statusInterval, .logLevel]
    (fun _ => True)
    (if s.reductionDepth < 0 then .error (.negativeDepthLimit s.reductionDepth)
    else if s.partitions = 0 then .error (s.complaint .partitions)
    else if s.statusInterval = 0 then .error (s.complaint .statusInterval)
    else if (LogLevel.ofName? s.logLevel).isNone then .error (s.complaint .logLevel)
    else .ok ())
  exact .test Int64.not_le.symm <| .test Nat.pos_iff_ne_zero.not_left.symm <|
    .test Nat.pos_iff_ne_zero.not_left.symm <| .test (isNone_ofName?_iff s.logLevel) <|
      .done trivial (by simp)

end Settings

/-! ### Variables -/

namespace Environment
open Text

/-- The variables that may be refused. -/
inductive Variable where
  | windowSize
  | grace
  | reductionDepth
  | maxRecordSize
  | partitions
  | discard
  | digest
  | statusInterval
deriving DecidableEq, Repr

namespace Variable

/-- The order in which variables are read, which is that of the settings. -/
def all : List Variable :=
  [.windowSize, .grace, .reductionDepth, .maxRecordSize, .partitions, .discard, .digest,
    .statusInterval]

theorem mem_all (v : Variable) : v ∈ all := by
  cases v <;> decide

def name : Variable → String
  | windowSize => "WINDOW_SIZE_MS"
  | grace => "GRACE_MS"
  | reductionDepth => "REDUCTION_DEPTH"
  | maxRecordSize => "MAX_RECORD_SIZE"
  | partitions => "PARTITIONS"
  | discard => "DISCARD"
  | digest => "DIGEST_ALGORITHM"
  | statusInterval => "STATUS_INTERVAL_SECS"

end Variable

/-! What the values of variables mean.  All of them are trimmed; numbers and truth values are then put
into lower case, and of the name of a digest the ASCII letters into upper case. -/

def MeansInteger (raw : String) (i : Int64) : Prop := SpellsInteger (lower (trim raw)) i.toInt

def MeansNatural (raw : String) (n : Nat) : Prop :=
  SpellsNatural (lower (trim raw)) n ∧ n < UInt64.size

def MeansTruth (raw : String) (b : Bool) : Prop :=
  lower (trim raw) = if b then "true" else "false"

def MeansSeconds (raw : String) (milliseconds : Nat) : Prop :=
  ∃ seconds, MeansNatural raw seconds ∧ milliseconds = 1000 * seconds

def MeansDigest (raw : String) (a : Digest.Algorithm) : Prop :=
  String.ofList ((trim raw).toList.map Char.toUpper) ∈ match a with
    | .sha3 => ["SHA3-256", "SHA3_256"]
    | .sha2 => ["SHA-256", "SHA256"]

/-- Whether a value of a variable means anything. -/
def Variable.Accepts (raw : String) : Variable → Prop
  | .windowSize | .grace | .reductionDepth => ∃ i, MeansInteger raw i
  | .maxRecordSize | .partitions => ∃ n, MeansNatural raw n
  | .discard => ∃ b, MeansTruth raw b
  | .digest => ∃ a, MeansDigest raw a
  | .statusInterval => ∃ n, MeansSeconds raw n

/-- What is said about a value of a variable that means nothing. -/
def Variable.complaint (raw : String) : Variable → ConfigError
  | .digest => .unsupportedDigest raw
  | v => .invalid (variableStem ++ v.name ++ " has invalid value '" ++ raw ++ "'")

theorem Variable.complaint_of_ne {v : Variable} (hv : v ≠ .digest) {raw : String} : v.complaint raw
    = .invalid (variableStem ++ v.name ++ " has invalid value '" ++ raw ++ "'") := by
  cases v with
  | digest => exact absurd rfl hv
  | _ => rfl

variable (env : Environment)

/-- A variable is refused if it is set to something that means nothing. -/
def Refuses (v : Variable) : Prop := ∃ raw, env.value? v.name = some raw ∧ ¬v.Accepts raw

/-- What is said about a variable that is refused. -/
def complaint (v : Variable) : ConfigError := v.complaint ((env.value? v.name).getD "")

/-- What a variable stands for: the default if it is unset or blank, else what its value means. -/
def Gives {α : Type} (v : Variable) (Means : String → α → Prop) (default a : α) : Prop :=
  match env.value? v.name with
  | none => a = default
  | some raw => Means raw a

variable {env} {α : Type} {v : Variable} {Means : String → α → Prop} {default : α}

theorem complaint_eq {raw : String} (hvalue : env.value? v.name = some raw) :
    env.complaint v = v.complaint raw := by
  rw [complaint, hvalue, Option.getD_some]

theorem Gives.unique (hmeans : ∀ raw a b, Means raw a → Means raw b → a = b) {a b : α}
    (ha : env.Gives v Means default a) (hb : env.Gives v Means default b) : a = b := by
  unfold Gives at ha hb
  split at ha
  · next hvalue =>
    rw [hvalue] at hb
    exact ha.trans hb.symm
  · next raw hvalue =>
    rw [hvalue] at hb
    exact hmeans raw a b ha hb

theorem MeansInteger.unique (raw : String) (i j : Int64) (hi : MeansInteger raw i)
    (hj : MeansInteger raw j) : i = j :=
  Option.some.inj ((integer?_eq_some_iff.mpr hi).symm.trans (integer?_eq_some_iff.mpr hj))

theorem MeansNatural.unique (raw : String) (m n : Nat) (hm : MeansNatural raw m)
    (hn : MeansNatural raw n) : m = n :=
  Option.some.inj ((natural?_eq_some_iff.mpr hm).symm.trans (natural?_eq_some_iff.mpr hn))

theorem MeansTruth.unique (raw : String) (a b : Bool) (ha : MeansTruth raw a)
    (hb : MeansTruth raw b) : a = b :=
  Option.some.inj ((truth?_eq_some_iff.mpr ha).symm.trans (truth?_eq_some_iff.mpr hb))

theorem MeansSeconds.unique (raw : String) (m n : Nat) (hm : MeansSeconds raw m)
    (hn : MeansSeconds raw n) : m = n := by
  obtain ⟨s, hs, rfl⟩ := hm
  obtain ⟨t, ht, rfl⟩ := hn
  rw [hs.unique raw s t ht]

theorem MeansDigest.unique (raw : String) (a b : Digest.Algorithm) (ha : MeansDigest raw a)
    (hb : MeansDigest raw b) : a = b := by
  have hdisjoint : ∀ name ∈ ["SHA3-256", "SHA3_256"], name ∉ ["SHA-256", "SHA256"] := by decide
  cases a with
  | sha3 =>
    cases b with
    | sha3 => rfl
    | sha2 => exact (hdisjoint _ ha hb).elim
  | sha2 =>
    cases b with
    | sha3 => exact (hdisjoint _ hb ha).elim
    | sha2 => rfl

theorem tried_of_means {r : Except ConfigError α}
    (haccepts : ∀ raw, v.Accepts raw ↔ ∃ a, Means raw a)
    (hunset : env.value? v.name = none → r = .ok default)
    (hset : ∀ raw, env.value? v.name = some raw →
      (∃ a, Means raw a ∧ r = .ok a) ∨ (∀ a, ¬Means raw a) ∧ r = .error (env.complaint v)) :
    Tried env.Refuses env.complaint [v] (env.Gives v Means default) r := by
  cases hvalue : env.value? v.name with
  | none =>
    rw [hunset hvalue]
    refine .done ?_ ?_
    · simp [Gives, hvalue]
    · simp [Refuses, hvalue]
  | some raw =>
    rcases hset raw hvalue with ⟨a, ha, rfl⟩ | ⟨hnone, rfl⟩
    · refine .done ?_ ?_
      · simpa [Gives, hvalue] using ha
      · simpa [Refuses, hvalue, haccepts] using ⟨a, ha⟩
    · refine .failed (.head ⟨raw, hvalue, ?_⟩)
      simpa [haccepts] using hnone

theorem setting_tried {read : String → Option α} (hv : v ≠ .digest)
    (haccepts : ∀ raw, v.Accepts raw ↔ ∃ a, Means raw a)
    (hread : ∀ raw a, read (lower (trim raw)) = some a ↔ Means raw a) :
    Tried env.Refuses env.complaint [v] (env.Gives v Means default)
      (env.setting v.name read default) := by
  refine tried_of_means haccepts (fun hvalue => ?_) fun raw hvalue => ?_
  · simp only [setting, hvalue]
  · simp only [setting, hvalue]
    cases hraw : read (lower (trim raw)) with
    | some a => exact .inl ⟨a, (hread raw a).mp hraw, rfl⟩
    | none =>
      refine .inr ⟨fun a ha => ?_, ?_⟩
      · rw [← hread, hraw] at ha
        cases ha
      · rw [complaint_eq hvalue, v.complaint_of_ne hv]

theorem secondsSetting_tried {default : Nat} :
    Tried env.Refuses env.complaint [.statusInterval] (env.Gives .statusInterval MeansSeconds default)
      (env.setting "STATUS_INTERVAL_SECS" (fun s => (natural? UInt64.size s).map (1000 * ·))
        default) := by
  refine setting_tried (v := .statusInterval) nofun (fun _ => Iff.rfl) fun raw n => ?_
  rw [Option.map_eq_some_iff, MeansSeconds]
  exact exists_congr fun seconds => and_congr natural?_eq_some_iff eq_comm

theorem digestSetting_tried {default : Digest.Algorithm} :
    Tried env.Refuses env.complaint [.digest] (env.Gives .digest MeansDigest default)
      (env.digestSetting default) := by
  refine tried_of_means (fun _ => Iff.rfl) (fun hvalue => ?_) fun raw hvalue => ?_
  · simp only [digestSetting, show env.value? "DIGEST_ALGORITHM" = none from hvalue]
  · simp only [digestSetting, show env.value? "DIGEST_ALGORITHM" = some raw from hvalue]
    rw [complaint_eq hvalue, Digest.Algorithm.ofName]
    by_cases h3 : MeansDigest raw .sha3
    · exact .inl ⟨.sha3, h3, if_pos (by simpa [MeansDigest] using h3)⟩
    by_cases h2 : MeansDigest raw .sha2
    · refine .inl ⟨.sha2, h2, ?_⟩
      simp only [MeansDigest, List.mem_cons, List.not_mem_nil, or_false] at h3 h2
      rw [if_neg h3, if_pos h2]
    · refine .inr ⟨fun a => ?_, ?_⟩
      · cases a <;> assumption
      · simp only [MeansDigest, List.mem_cons, List.not_mem_nil, or_false] at h3 h2
        rw [if_neg h3, if_neg h2]
        rfl

end Environment

namespace Settings
open Environment Text

/-- The settings that an environment gives. -/
structure GivenBy (env : Environment) (s : Settings) : Prop where
  windowSize : env.Gives .windowSize MeansInteger ({} : Settings).windowSize s.windowSize
  grace : env.Gives .grace MeansInteger ({} : Settings).grace s.grace
  reductionDepth :
    env.Gives .reductionDepth MeansInteger ({} : Settings).reductionDepth s.reductionDepth
  maxRecordSize :
    env.Gives .maxRecordSize MeansNatural ({} : Settings).maxRecordSize s.maxRecordSize
  partitions : env.Gives .partitions MeansNatural ({} : Settings).partitions s.partitions
  discard : env.Gives .discard MeansTruth ({} : Settings).discard s.discard
  digest : env.Gives .digest MeansDigest ({} : Settings).digest s.digest
  statusInterval :
    env.Gives .statusInterval MeansSeconds ({} : Settings).statusInterval s.statusInterval
  logLevel : s.logLevel = ((env.value? "LOG_LEVEL").map lower).getD ({} : Settings).logLevel
  listenAddress : s.listenAddress = (env.value? "LISTEN_ADDR").getD ({} : Settings).listenAddress

theorem read_tried (env : Environment) :
    Tried env.Refuses env.complaint Variable.all (fun s => s.GivenBy env) (read env) := by
  refine (setting_tried (v := .windowSize) nofun (fun _ => Iff.rfl)
    fun _ _ => integer?_eq_some_iff).bind fun windowSize hwindowSize => ?_
  refine (setting_tried (v := .grace) nofun (fun _ => Iff.rfl)
    fun _ _ => integer?_eq_some_iff).bind fun grace hgrace => ?_
  refine (setting_tried (v := .reductionDepth) nofun (fun _ => Iff.rfl)
    fun _ _ => integer?_eq_some_iff).bind fun reductionDepth hreductionDepth => ?_
  refine (setting_tried (v := .maxRecordSize) nofun (fun _ => Iff.rfl)
    fun _ _ => natural?_eq_some_iff).bind fun maxRecordSize hmaxRecordSize => ?_
  refine (setting_tried (v := .partitions) nofun (fun _ => Iff.rfl)
    fun _ _ => natural?_eq_some_iff).bind fun partitions hpartitions => ?_
  refine (setting_tried (v := .discard) nofun (fun _ => Iff.rfl)
    fun _ _ => truth?_eq_some_iff).bind fun discard hdiscard => ?_
  refine digestSetting_tried.bind fun digest hdigest => ?_
  refine secondsSetting_tried.bind fun statusInterval hstatusInterval => ?_
  exact .done ⟨hwindowSize, hgrace, hreductionDepth, hmaxRecordSize, hpartitions, hdiscard,
      hdigest, hstatusInterval, rfl, rfl⟩ (by simp)

theorem GivenBy.unique {env : Environment} {s t : Settings} (hs : s.GivenBy env)
    (ht : t.GivenBy env) : s = t := by
  have hwindowSize := hs.windowSize.unique MeansInteger.unique ht.windowSize
  have hgrace := hs.grace.unique MeansInteger.unique ht.grace
  have hreductionDepth := hs.reductionDepth.unique MeansInteger.unique ht.reductionDepth
  have hmaxRecordSize := hs.maxRecordSize.unique MeansNatural.unique ht.maxRecordSize
  have hpartitions := hs.partitions.unique MeansNatural.unique ht.partitions
  have hdiscard := hs.discard.unique MeansTruth.unique ht.discard
  have hdigest := hs.digest.unique MeansDigest.unique ht.digest
  have hstatusInterval := hs.statusInterval.unique MeansSeconds.unique ht.statusInterval
  have hlogLevel := hs.logLevel.trans ht.logLevel.symm
  have hlistenAddress := hs.listenAddress.trans ht.listenAddress.symm
  cases s
  cases t
  simp_all

/-! ### What comes out -/

theorem ofEnvironment_of_read {env : Environment} {s : Settings} (h : read env = .ok s) :
    Tried (fun r => ¬s.Meets r) s.complaint Requirement.all (· = s) (ofEnvironment env) := by
  have hreturn : Tried (fun r => ¬s.Meets r) s.complaint [] (· = s) (.ok s) := .done rfl (by simp)
  have hchecked := s.check_tried.bind fun _ _ => hreturn
  rw [ofEnvironment, h]
  exact hchecked

theorem ofEnvironment_eq_ok_iff {env : Environment} {s : Settings} :
    ofEnvironment env = .ok s ↔ (∀ v, ¬env.Refuses v) ∧ s.GivenBy env ∧ ∀ r, s.Meets r := by
  constructor
  · intro h
    cases hread : read env with
    | error e => simp [ofEnvironment, hread, bind, Except.bind] at h
    | ok t =>
      obtain ⟨hgiven, hrefuses⟩ := (hread ▸ read_tried env).of_ok
      obtain ⟨rfl, hmeets⟩ := (h ▸ ofEnvironment_of_read hread).of_ok
      exact ⟨fun v => hrefuses v v.mem_all, hgiven, fun r => not_not.mp (hmeets r r.mem_all)⟩
  · rintro ⟨hrefuses, hgiven, hmeets⟩
    obtain ⟨t, hread, ht⟩ := (read_tried env).eq_ok fun v _ => hrefuses v
    obtain rfl := hgiven.unique ht
    obtain ⟨_, hok, rfl⟩ := (ofEnvironment_of_read hread).eq_ok fun r _ => not_not.mpr (hmeets r)
    exact hok

/-- Settings come out only if no variable is refused, and then each is what its variable says or its
default, and all requirements are met; such settings pass their check and start whatever is made from
them.  Otherwise the first variable that is refused is reported, or else the first requirement that
the settings do not meet. -/
theorem ofEnvironment_law (env : Environment) :
    (∀ s : Settings, ofEnvironment env = .ok s ↔
      (∀ v, ¬env.Refuses v) ∧ s.GivenBy env ∧ ∀ r, s.Meets r) ∧
    (∀ e, ofEnvironment env = .error e ↔
      (∃ v, IsFirst env.Refuses Variable.all v ∧ e = env.complaint v) ∨
      (∀ v, ¬env.Refuses v) ∧ ∃ s : Settings, s.GivenBy env ∧
        ∃ r, IsFirst (fun r => ¬s.Meets r) Requirement.all r ∧ e = s.complaint r) ∧
    (∀ s : Settings, ofEnvironment env = .ok s → s.check = .ok () ∧
      (∃ limit : Nat, depthLimit? s.reductionDepth = .ok limit ∧ limit = s.reductionDepth.toInt) ∧
      Assembler.new? s.windows = .ok { config := s.windows } ∧
      ∀ (σ : Type) (store : σ), ∃ p, Pipeline.start s store = .ok p) := by
  refine ⟨fun s => ofEnvironment_eq_ok_iff, fun e => ?_, fun s hs => ?_⟩
  · by_cases hrefuses : ∀ v, ¬env.Refuses v
    · obtain ⟨s, hread, hgiven⟩ := (read_tried env).eq_ok fun v _ => hrefuses v
      rw [(ofEnvironment_of_read hread).eq_error_iff]
      constructor
      · exact fun hr => .inr ⟨hrefuses, s, hgiven, hr⟩
      · rintro (⟨v, hv, -⟩ | ⟨-, t, ht, hr⟩)
        · exact absurd hv.1 (hrefuses v)
        · exact hgiven.unique ht ▸ hr
    · cases hread : read env with
      | ok t =>
        have hall := (hread ▸ read_tried env).of_ok.2
        exact absurd (fun v => hall v v.mem_all) hrefuses
      | error e' =>
        have hresult : ofEnvironment env = .error e' := by rw [ofEnvironment, hread]; rfl
        have hfirst := hread ▸ (read_tried env).eq_error_iff (e := e)
        rw [hresult, hfirst]
        exact (or_iff_left fun h => hrefuses h.1).symm
  · obtain ⟨-, -, hmeets⟩ := ofEnvironment_eq_ok_iff.mp hs
    obtain ⟨_, hcheck, -⟩ := s.check_tried.eq_ok fun r _ => not_not.mpr (hmeets r)
    obtain ⟨hwindows, hdepth, -⟩ := check_eq_ok_iff.mp hcheck
    have hnonneg : 0 ≤ s.reductionDepth.toInt := Int64.le_iff_toInt_le.mp hdepth
    exact ⟨hcheck, ⟨_, if_neg (Int64.not_lt.mpr hdepth), Int.toNat_of_nonneg hnonneg⟩,
      Assembler.new?_eq_ok_iff.mpr ⟨hwindows, rfl⟩, fun σ store => ⟨_, Pipeline.start_eq hcheck store⟩⟩

/-- Some variables are set, one of them to white space and none of them to plain text. -/
theorem ofEnvironment_law_some_set :
    let env : Environment := fun name =>
      [("TRACE_REDUCER_GRACE_MS", " \t"), ("TRACE_REDUCER_REDUCTION_DEPTH", "+007"),
        ("TRACE_REDUCER_DISCARD", " True "), ("TRACE_REDUCER_DIGEST_ALGORITHM", "sha256\n")].lookup name
    let s : Settings := { reductionDepth := 7, discard := true, digest := .sha2 }
    ofEnvironment env = .ok s ∧ (∀ v, ¬env.Refuses v) ∧ s.GivenBy env ∧ (∀ r, s.Meets r) ∧
      s.check = .ok () ∧ Assembler.new? s.windows = .ok { config := s.windows } := by
  intro env s
  have hs : ofEnvironment env = .ok s := by decide +kernel
  obtain ⟨hok, -, hstarts⟩ := ofEnvironment_law env
  obtain ⟨hrefuses, hgiven, hmeets⟩ := (hok s).mp hs
  obtain ⟨hcheck, -, hnew, -⟩ := hstarts s hs
  exact ⟨hs, hrefuses, hgiven, hmeets, hcheck, hnew⟩

end Settings
end CallTrace
