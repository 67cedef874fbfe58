import CallTrace.Proofs.Json.RoundTrip
import CallTrace.Record.Ingress

/-! # Spans by their members

What is read from the text of an object is settled by the members of known names alone
(`Span.read?_iff_describedBy`): in whatever order, with whatever white space, escapes and unknown
members it is written, it is the text of a span just if its members describe that span
(`Span.DescribedBy`).

A reader looks fields up by name, so all of it comes down to the values that the members give for a
name (`valuesOf`).  Since an integer has one literal, what a field has to be given is the value it
would be written as. -/

namespace CallTrace.Json

/-- The values that some members give for a name. -/
def valuesOf (name : String) (members : List (Text × Value)) : List Value :=
  (members.filter (·.1 == some name)).map (·.2)

theorem mem_valuesOf {name : String} {members : List (Text × Value)} {v : Value} :
    v ∈ valuesOf name members ↔ (some name, v) ∈ members := by
  simp [valuesOf]

theorem length_valuesOf (name : String) (members : List (Text × Value)) :
    (valuesOf name members).length = (members.map Prod.fst).count (some name) := by
  rw [valuesOf, List.length_map, List.count, List.countP_map, List.countP_eq_length_filter]
  rfl

theorem valuesOf_eq_nil {name : String} {members : List (Text × Value)} :
    valuesOf name members = [] ↔ some name ∉ members.map Prod.fst := by
  rw [← List.length_eq_zero_iff, length_valuesOf, List.count_eq_zero]

/-- Members with their names as optional texts. -/
def withTexts (named : List (String × Value)) : List (Text × Value) := named.map (Prod.map some id)

theorem valuesOf_withTexts (name : String) (named : List (String × Value)) :
    valuesOf name (withTexts named) = field name named := by
  simp only [valuesOf, withTexts, field, List.filter_map, List.map_map, Function.comp_def, Prod.map_fst,
    Option.some_beq_some]
  rfl

theorem named?_withTexts (named : List (String × Value)) : named? (withTexts named) = some named := by
  induction named with
  | nil => rfl
  | cons m named ih =>
    rw [named?] at ih
    rw [withTexts, List.map_cons, named?, List.mapM_cons, ← withTexts, ih]
    rfl

/-- An object is one of names just if all of them have a text. -/
theorem eq_withTexts_of_isSome {members : List (Text × Value)} (h : ∀ m ∈ members, m.1.isSome) :
    ∃ named, members = withTexts named := by
  induction members with
  | nil => exact ⟨[], rfl⟩
  | cons m members ih =>
    obtain ⟨hm, hmembers⟩ := List.forall_mem_cons.mp h
    obtain ⟨named, rfl⟩ := ih hmembers
    obtain ⟨name, hname⟩ := Option.isSome_iff_exists.mp hm
    exact ⟨(name, m.2) :: named, by simp [withTexts, ← hname]⟩

theorem isSome_of_named? {members : List (Text × Value)} {named : List (String × Value)}
    (h : named? members = some named) : ∀ m ∈ members, m.1.isSome := by
  induction members generalizing named with
  | nil => nofun
  | cons m members ih =>
    rw [named?, List.mapM_cons] at h
    simp only [Option.bind_eq_bind, Option.bind_eq_some_iff, Option.map_eq_some_iff] at h
    obtain ⟨_, ⟨name, hname, -⟩, rest, hrest, -⟩ := h
    exact List.forall_mem_cons.mpr ⟨by simp [hname], ih hrest⟩

/-! ### Looking fields up -/

theorem required?_eq_some_iff {α : Type} {name : String} {read : Value → Option α}
    {members : List (String × Value)} {a : α} :
    required? name read members = some a ↔ ∃ v, field name members = [v] ∧ read v = some a := by
  unfold required?
  split
  · next v hv => simp [hv]
  · next h => simpa using fun v hv => absurd hv (h v)

theorem required?_text {name : String} {members : List (String × Value)} {t : String} :
    required? name Value.text? members = some t ↔ field name members = [.ofString t] := by
  simp [required?_eq_some_iff, Value.text?_eq_some_iff]

theorem required?_int64 {name : String} {members : List (String × Value)}
    (hlegal : ∀ m ∈ members, m.2.Legal) {x : Int64} :
    required? name Value.int64? members = some x ↔ field name members = [.ofInt x.toInt] := by
  rw [required?_eq_some_iff]
  constructor
  · rintro ⟨v, hv, hx⟩
    have hmem : v ∈ field name members := hv ▸ List.mem_singleton_self v
    obtain ⟨m, hm, rfl⟩ := List.mem_map.mp hmem
    rw [hv, (Value.int64?_eq_some_iff (hlegal m ((List.mem_filter.mp hm).1))).mp hx]
  · intro h
    exact ⟨_, h, Value.int64?_ofInt x⟩

theorem optional?_text {name : String} {members : List (String × Value)} {t : String} :
    optional? name Value.text? "" members = some t ↔
      field name members = [.ofString t] ∨ Value.ofString t = .ofString "" ∧ field name members = [] := by
  unfold optional?
  split
  · next h => simp [h, Value.ofString, eq_comm]
  · next v h => simp [h, Value.text?_eq_some_iff]
  · next hnil hone =>
    refine ⟨fun h => by simp at h, fun h => ?_⟩
    exact h.elim (fun h => absurd h (hone _)) fun h => absurd h.2 hnil

end CallTrace.Json

namespace CallTrace.Span
open Json

/-- The values of the fields, in the order of their names. -/
def values (s : Span) : List Value :=
  [.ofString s.landscapeToken, .ofString s.traceId, .ofString s.spanId, .ofString s.parentSpanId,
    .ofInt s.startTime.toInt, .ofInt s.endTime.toInt, .ofString s.operationHash,
    .ofString s.hostAddress, .ofString s.instanceId, .ofString s.operationName]

/-- The fields that have to be given. -/
def requiredNames : List String := ["landscapeToken", "traceId", "spanId", "startTime", "endTime"]

/-- The fields that are integers. -/
def integerNames : List String := ["startTime", "endTime"]

/-- Whether an object with some members is a way to write a span: all of their names are texts, each
field is given once with its value, and only an optional one that is empty may be missing. -/
structure DescribedBy (s : Span) (members : List (Text × Value)) : Prop where
  named : ∀ m ∈ members, m.1.isSome
  given : ∀ f ∈ fieldNames.zip s.values, valuesOf f.1 members = [f.2] ∨
    f.1 ∉ requiredNames ∧ f.2 = .ofString "" ∧ valuesOf f.1 members = []

theorem ofMembers?_eq_some_iff {members : List (String × Value)} (hlegal : ∀ m ∈ members, m.2.Legal)
    {s : Span} : ofMembers? members = some s ↔ ∀ f ∈ fieldNames.zip s.values,
      field f.1 members = [f.2] ∨
        f.1 ∉ requiredNames ∧ f.2 = .ofString "" ∧ field f.1 members = [] := by
  have hfields : ofMembers? members = some s ↔
      required? "landscapeToken" Value.text? members = some s.landscapeToken ∧
      required? "traceId" Value.text? members = some s.traceId ∧
      required? "spanId" Value.text? members = some s.spanId ∧
      optional? "parentSpanId" Value.text? "" members = some s.parentSpanId ∧
      required? "startTime" Value.int64? members = some s.startTime ∧
      required? "endTime" Value.int64? members = some s.endTime ∧
      optional? "operationHash" Value.text? "" members = some s.operationHash ∧
      optional? "hostIpAddress" Value.text? "" members = some s.hostAddress ∧
      optional? "appInstanceId" Value.text? "" members = some s.instanceId ∧
      optional? "fullyQualifiedOperationName" Value.text? "" members = some s.operationName := by
    simp only [ofMembers?, Option.bind_eq_bind, Option.bind_eq_some_iff, Option.pure_def,
      Option.some.injEq]
    constructor
    · rintro ⟨_, h₁, _, h₂, _, h₃, _, h₄, _, h₅, _, h₆, _, h₇, _, h₈, _, h₉, _, h₁₀, rfl⟩
      exact ⟨h₁, h₂, h₃, h₄, h₅, h₆, h₇, h₈, h₉, h₁₀⟩
    · rintro ⟨h₁, h₂, h₃, h₄, h₅, h₆, h₇, h₈, h₉, h₁₀⟩
      exact ⟨_, h₁, _, h₂, _, h₃, _, h₄, _, h₅, _, h₆, _, h₇, _, h₈, _, h₉, _, h₁₀, rfl⟩
  rw [hfields]
  simp [required?_text, required?_int64 hlegal, optional?_text, fieldNames, values, requiredNames]

/-- The text of an object is that of a span just if its members describe the span. -/
theorem read?_eq_some_iff {text : String} {members : List (Text × Value)}
    (h : Spells text.toList (.value (.object members))) {s : Span} :
    read? text = some s ↔ s.DescribedBy members := by
  have hread : read? text = (named? members).bind ofMembers? := by
    rw [read?, h.read?, Option.bind_some, ofValue?]
  rw [hread, Option.bind_eq_some_iff]
  have hlegal : ∀ named, members = withTexts named → ∀ m ∈ named, m.2.Legal := by
    rintro named rfl m hm
    cases h.legal with
    | object hmembers => exact hmembers _ (List.mem_map_of_mem hm)
  constructor
  · rintro ⟨named, hnamed, hs⟩
    have htexts := isSome_of_named? hnamed
    obtain ⟨named, rfl⟩ := eq_withTexts_of_isSome htexts
    obtain rfl := Option.some.inj ((named?_withTexts _).symm.trans hnamed)
    refine ⟨htexts, fun f hf => ?_⟩
    rw [valuesOf_withTexts]
    exact (ofMembers?_eq_some_iff (hlegal _ rfl)).mp hs f hf
  · rintro ⟨htexts, hgiven⟩
    obtain ⟨named, rfl⟩ := eq_withTexts_of_isSome htexts
    refine ⟨named, named?_withTexts named, (ofMembers?_eq_some_iff (hlegal _ rfl)).mpr fun f hf => ?_⟩
    rw [← valuesOf_withTexts]
    exact hgiven f hf

/-! ### What goes wrong -/

theorem DescribedBy.field {s : Span} {members : List (Text × Value)} (h : s.DescribedBy members)
    {name : String} (hname : name ∈ fieldNames) : ∃ v, (name, v) ∈ fieldNames.zip s.values ∧
      (valuesOf name members = [v] ∨ name ∉ requiredNames ∧ valuesOf name members = []) := by
  have hnames : (fieldNames.zip s.values).map Prod.fst = fieldNames := rfl
  rw [← hnames] at hname
  obtain ⟨⟨_, v⟩, hf, rfl⟩ := List.mem_map.mp hname
  exact ⟨v, hf, (h.given _ hf).imp_right fun h => ⟨h.1, h.2.2⟩⟩

/-- The value of a field that an object gives. -/
theorem DescribedBy.value {s : Span} {members : List (Text × Value)} (h : s.DescribedBy members)
    {name : String} (hname : name ∈ fieldNames) {v : Value} (hv : (some name, v) ∈ members) :
    (name, v) ∈ fieldNames.zip s.values := by
  rw [← mem_valuesOf] at hv
  obtain ⟨w, hw, hone | ⟨-, hnone⟩⟩ := h.field hname
  · rw [hone, List.mem_singleton] at hv
    rwa [hv]
  · simp [hnone] at hv

theorem DescribedBy.count_le_one {s : Span} {members : List (Text × Value)} (h : s.DescribedBy members)
    {name : String} (hname : name ∈ fieldNames) : (members.map Prod.fst).count (some name) ≤ 1 := by
  rw [← length_valuesOf]
  obtain ⟨v, -, hone | ⟨-, hnone⟩⟩ := h.field hname
  · simp [hone]
  · simp [hnone]

theorem DescribedBy.mem_of_required {s : Span} {members : List (Text × Value)}
    (h : s.DescribedBy members) {name : String} (hname : name ∈ requiredNames) :
    some name ∈ members.map Prod.fst := by
  have hall : ∀ name ∈ requiredNames, name ∈ fieldNames := by decide
  obtain ⟨v, -, hone | ⟨hoptional, -⟩⟩ := h.field (hall name hname)
  · refine Decidable.of_not_not fun hmissing => ?_
    rw [valuesOf_eq_nil.mpr hmissing] at hone
    simp at hone
  · exact absurd hname hoptional

theorem integer_of_mem_values {s : Span} {name : String} {v : Value}
    (hv : (name, v) ∈ fieldNames.zip s.values) (hname : name ∈ integerNames) :
    ∃ x : Int64, v = .ofInt x.toInt := by
  simp only [integerNames, List.mem_cons, List.not_mem_nil, or_false] at hname
  rcases hname with rfl | rfl
  · exact ⟨s.startTime, by simpa [fieldNames, values] using hv⟩
  · exact ⟨s.endTime, by simpa [fieldNames, values] using hv⟩

theorem ne_null_of_mem_values {s : Span} {name : String} {v : Value}
    (hv : (name, v) ∈ fieldNames.zip s.values) : v ≠ .null := by
  have hvalues : ∀ v ∈ s.values, v ≠ .null := by simp [values, Value.ofString, Value.ofInt]
  exact hvalues v (List.of_mem_zip hv).2

/-- Whatever its order, white space and escapes, and whatever other members are in it, the text of an
object is read as the span that its members describe, alone as well as within an ingress record.
Nothing is read if a known name is there twice, a required one is missing, a time is not the literal
of a 64-bit integer (which has no fraction, no exponent and no sign on a zero), or a known field is
null. -/
theorem read?_iff_describedBy {text : String} {members : List (Text × Value)}
    (h : Spells text.toList (.value (.object members))) :
    (∀ s : Span, read? text = some s ↔ s.DescribedBy members) ∧
      ((∃ name ∈ fieldNames, 1 < (members.map Prod.fst).count (some name)) ∨
        (∃ name ∈ requiredNames, some name ∉ members.map Prod.fst) ∨
        (∃ name ∈ integerNames, ∃ v, (some name, v) ∈ members ∧ ∀ x : Int64, v ≠ .ofInt x.toInt) ∨
        (∃ name ∈ fieldNames, (some name, .null) ∈ members) → read? text = none) ∧
      ∀ record : String, Spells record.toList (.value (.object [(some "span", .object members)])) →
        Record.read? record = (read? text).map .span := by
  refine ⟨fun s => read?_eq_some_iff h, fun hbad => ?_, fun record hrecord => ?_⟩
  · refine Option.eq_none_iff_forall_ne_some.mpr fun s hs => ?_
    have hdescribed := (read?_eq_some_iff h).mp hs
    have htimes : ∀ name ∈ integerNames, name ∈ fieldNames := by decide
    rcases hbad with ⟨name, hname, htwice⟩ | ⟨name, hname, hmissing⟩ | ⟨name, hname, v, hv, hinteger⟩ |
      ⟨name, hname, hnull⟩
    · exact absurd (hdescribed.count_le_one hname) (by omega)
    · exact hmissing (hdescribed.mem_of_required hname)
    · obtain ⟨x, hx⟩ := integer_of_mem_values (hdescribed.value (htimes name hname) hv) hname
      exact hinteger x hx
    · exact ne_null_of_mem_values (hdescribed.value hname hnull) rfl
  · rw [Record.read?, hrecord.read?, read?, h.read?]
    rfl

/-- Times before the identifiers, an escape in a name, white space, and an unknown name given twice. -/
theorem read?_shuffled :
    let members : List (Text × Value) := [(some "x", .array [.object [], .string none]),
      (some "endTime", .ofInt 9), (some "spanId", .ofString "a"), (some "startTime", .ofInt (-5)),
      (some "x", .null), (some "traceId", .ofString "1"), (some "landscapeToken", .ofString "t")]
    let text := "\x7b\"x\" :[\x7b \x7d,\"\\ud800\"],\"endTime\":9,\"\\u0073panId\":\"a\",\"startTime\":-5,"
      ++ "\n\"x\":null,\"traceId\":\"1\",\"landscapeToken\":\"t\"\x7d\t"
    let s : Span :=
      { landscapeToken := "t", traceId := "1", spanId := "a", startTime := -5, endTime := 9 }
    Spells text.toList (.value (.object members)) ∧ read? text = some s ∧
      Record.read? ("\x7b\"span\":" ++ text ++ "\x7d") = some (.span s) := by
  intro members text s
  have hblank : ∀ {c}, isBlank c → IsBlank [c] := fun hc => List.forall_mem_singleton.mpr hc
  have hspace : IsBlank [' '] := hblank rfl
  have hline : IsBlank ['\n'] := hblank rfl
  have htab : IsBlank ['\t'] := hblank rfl
  -- the members that are written in the canonical way
  have hmember : ∀ (name : String) {v : Value}, v.Legal →
      Spells (Text.render (some name) ++ ([] ++ ':' :: v.render)) (.members [(some name, v)]) :=
    fun name v hv => .member (Text.spells_render _) isBlank_nil hv.spells
  have hnested : Spells _ (.value (.array [.object [], .string none])) :=
    .array (.moreItems (.item (.emptyObject hspace)) (.item (.string (Text.spells_render none))))
  have hs : SpellsUnit ['\\', 'u', '0', '0', '7', '3'] 's'.toNat := by
    have hdigit : ∀ d < 16, IsHexDigit (Nat.digitChar d) d := fun d hd => ⟨hd, .inl rfl⟩
    exact .hex (hdigit 0 (by omega)) (hdigit 0 (by omega)) (hdigit 7 (by omega)) (hdigit 3 (by omega))
  have hid : SpellsText _ (some "spanId") :=
    .text (.cons hs (spellsUnits_flatMap_escapeChar "panId".toList)) (textUnits_toNat "spanId".toList)
  have hwritten := Spells.blankAfter htab (.object
    (.moreMembers (.member (Text.spells_render (some "x")) hspace hnested)
    (.moreMembers (hmember "endTime" (Value.legal_ofInt 9))
    (.moreMembers (.member hid isBlank_nil (Value.legal_ofString "a").spells)
    (.moreMembers (hmember "startTime" (Value.legal_ofInt (-5)))
    (.moreMembers (.blankBefore hline (hmember "x" .null))
    (.moreMembers (hmember "traceId" (Value.legal_ofString "1"))
      (hmember "landscapeToken" (Value.legal_ofString "t")))))))))
  have hspells : Spells text.toList (.value (.object members)) := by
    refine Eq.mp (congrArg (Spells · _) ?_) hwritten
    decide +kernel
  have hrecord : Spells ("\x7b\"span\":" ++ text ++ "\x7d").toList
      (.value (.object [(some "span", .object members)])) := by
    rw [String.toList_append, String.toList_append]
    exact .object (.member (Text.spells_render (some "span")) isBlank_nil hspells)
  obtain ⟨hread, -, hwithin⟩ := read?_iff_describedBy hspells
  have hs : s.DescribedBy members :=
    ⟨by simp [members], by simp [members, s, values, fieldNames, valuesOf, requiredNames]⟩
  refine ⟨hspells, (hread s).mpr hs, ?_⟩
  rw [hwithin _ hrecord, (hread s).mpr hs, Option.map_some]

end CallTrace.Span
