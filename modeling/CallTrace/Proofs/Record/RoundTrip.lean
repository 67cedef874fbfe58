import CallTrace.Proofs.Json.RoundTrip
import CallTrace.Record.Ingress
import CallTrace.Record.Trace
import Mathlib.Logic.Function.Basic

/-! # Records are read back

What is read from the canonical text of a span, a trace or an event is that span, trace or event, and
so it is within an ingress record (`Record.read?_render_all`).  No two have the same text.

Each record is written as a value with all fields, from which its fields are read back
(`Span.ofValue?_toValue`, `Trace.ofValue?_toValue`, `TokenEvent.ofValue?_toValue`); and that value has
a text, from which it is read back. -/

namespace CallTrace
open Json

/-- What can be read back has a text of its own. -/
theorem injective_of_read? {α : Type} {read? : String → Option α} {render : α → List Char}
    (h : ∀ a, read? (String.ofList (render a)) = some a) : Function.Injective render := by
  intro a b hab
  refine Option.some.inj ?_
  rw [← h a, hab, h b]

/-! ### Spans -/

namespace Span

theorem legal_toValue (s : Span) : s.toValue.Legal :=
  Value.legal_zip (by simp [Value.legal_ofString, Value.legal_ofInt])

theorem ofValue?_toValue (s : Span) : ofValue? s.toValue = some s := by
  simp [ofValue?, toValue, fieldNames, named?, ofMembers?, required?, optional?, field]

theorem read?_render (s : Span) : read? (String.ofList s.render) = some s := by
  rw [read?, render, Value.read?_render s.legal_toValue, Option.bind_some, ofValue?_toValue]

end Span

/-! ### Traces -/

namespace Trace

theorem legal_toValue (t : Trace) : t.toValue.Legal := by
  have hspans : (Value.array (t.spans.map Span.toValue)).Legal := by
    refine .array fun v hv => ?_
    obtain ⟨s, -, rfl⟩ := List.mem_map.mp hv
    exact s.legal_toValue
  exact Value.legal_zip (by simp [Value.legal_ofString, Value.legal_ofInt, hspans])

theorem spans?_toValue (spans : List Span) :
    spans? (.array (spans.map Span.toValue)) = some spans := by
  show (spans.map Span.toValue).mapM Span.ofValue? = some spans
  induction spans with
  | nil => rfl
  | cons s spans ih =>
    rw [List.map_cons, List.mapM_cons, Span.ofValue?_toValue, ih]
    rfl

theorem ofValue?_toValue (t : Trace) : ofValue? t.toValue = some t := by
  simp [ofValue?, toValue, fieldNames, named?, ofMembers?, required?, field, spans?_toValue]

theorem read?_render (t : Trace) : read? (String.ofList t.render) = some t := by
  rw [read?, render, Value.read?_render t.legal_toValue, Option.bind_some, ofValue?_toValue]

end Trace

/-! ### Events -/

namespace TokenEvent

theorem legal_toValue (e : TokenEvent) : e.toValue.Legal := by
  cases e <;> exact .object (by simp [Value.legal_ofString])

/-- An event nests no containers within its own. -/
theorem ofValue?_toValue (depth : Nat) (e : TokenEvent) :
    ofValue? (depth + 1) e.toValue = some e := by
  cases e <;> simp [ofValue?, toValue, Value.nestsWithin, Value.ofString, named?, ofMembers?,
    required?, field, kind?, Value.text?]

theorem read?_render (e : TokenEvent) : read? (String.ofList e.render) = some e := by
  rw [read?, render, Value.read?_render e.legal_toValue, Option.bind_some]
  exact ofValue?_toValue _ e

end TokenEvent

/-! ### Ingress records -/

namespace Record

theorem legal_toValue (r : Record) : r.toValue.Legal := by
  cases r with
  | span s => exact .object (by simpa using s.legal_toValue)
  | tokenEvent e => exact .object (by simpa using e.legal_toValue)

theorem ofValue?_toValue (r : Record) : ofValue? r.toValue = some r := by
  cases r with
  | span s => simp [toValue, ofValue?, Span.ofValue?_toValue]
  | tokenEvent e =>
    have he : TokenEvent.ofValue? (TokenEvent.maxDepth - 1) e.toValue = some e :=
      TokenEvent.ofValue?_toValue _ e
    simp [toValue, ofValue?, he]

theorem read?_render (r : Record) : read? (String.ofList r.render) = some r := by
  rw [read?, render, Value.read?_render r.legal_toValue, Option.bind_some, ofValue?_toValue]

/-- The text of a record has that of its span or its event in it. -/
theorem ofList_render (r : Record) : String.ofList r.render = match r with
    | span s => "\x7b\"span\":" ++ String.ofList s.render ++ "\x7d"
    | tokenEvent e => "\x7b\"tokenEvent\":" ++ String.ofList e.render ++ "\x7d" := by
  cases r with
  | span s =>
    apply String.toList_injective
    simp [render, toValue, Value.render, renderMembers, Text.render, quote, Span.render, escapeChar]
  | tokenEvent e =>
    apply String.toList_injective
    simp [render, toValue, Value.render, renderMembers, Text.render, quote, TokenEvent.render, escapeChar]

/-- Whatever texts and numbers are in them, spans, traces and events are read back from their
canonical texts, and spans and events also from the ingress records around these; so no two spans,
no two traces and no two events have the same text. -/
theorem read?_render_all :
    (∀ s : Span, Span.read? (String.ofList s.render) = some s) ∧
      (∀ t : Trace, Trace.read? (String.ofList t.render) = some t) ∧
      (∀ e : TokenEvent, TokenEvent.read? (String.ofList e.render) = some e) ∧
      (∀ s : Span, Record.read? ("\x7b\"span\":" ++ String.ofList s.render ++ "\x7d")
        = some (.span s)) ∧
      (∀ e : TokenEvent, Record.read? ("\x7b\"tokenEvent\":" ++ String.ofList e.render ++ "\x7d")
        = some (.tokenEvent e)) ∧
      Function.Injective Span.render ∧ Function.Injective Trace.render ∧
      Function.Injective TokenEvent.render := by
  refine ⟨Span.read?_render, Trace.read?_render, TokenEvent.read?_render, fun s => ?_, fun e => ?_,
    injective_of_read? Span.read?_render, injective_of_read? Trace.read?_render,
    injective_of_read? TokenEvent.read?_render⟩
  · rw [← read?_render (.span s), ofList_render]
  · rw [← read?_render (.tokenEvent e), ofList_render]

end Record
end CallTrace
