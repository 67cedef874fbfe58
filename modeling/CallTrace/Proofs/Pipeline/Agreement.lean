import CallTrace.Proofs.Pipeline.Requests
import CallTrace.Proofs.Window.Watermark

/-! # All workers come to one watermark

Only the caller that raises the stream watermark tells the workers, and it tells them one after the
other.  A caller with a lower time relies on that.  So while calls are under way workers may differ,
and the times they hear may come in any order.

Three things hold all the time (`System.Announced`).  The stream watermark is a time that somebody
routed.  Each worker has been told of it, or is still to be.  Every time that was routed lies no
higher, or somebody is still to announce one that is at least as high.  When no call is under way,
the stream watermark is the highest time routed, and every worker has been told of it and of no
higher one.  So when the inboxes are empty, all have the same watermark (`System.watermarks_agree`). -/

namespace CallTrace

/-! ### What a worker hears -/

/-- The times that a command tells. -/
def Command.times : Command → List Timestamp
  | .ingest spans => spans.map Span.startTime
  | .advance t => [t]
  | .report _ => []
  | .shutdown => []

def Deed.eventTime? (d : Deed) : Option Timestamp := d.operation?.bind Operation.eventTime?

theorem Command.eventTimes_deeds (c : Command) : c.deeds.filterMap Deed.eventTime? = c.times := by
  cases c with
  | ingest spans =>
    rw [deeds, List.filterMap_map, times, ← List.filterMap_eq_map]
    rfl
  | _ => rfl

/-- The watermark is the highest time of what was worked off. -/
theorem WindowConfig.Valid.watermark_after {c : WindowConfig} (hc : c.Valid) (deeds : List Deed) :
    (c.after deeds).1.watermark
      = ((deeds.filter Deed.isWork).filterMap Deed.eventTime?).max? := by
  have htimes : (deeds.filterMap Deed.operation?).filterMap Operation.eventTime?
      = (deeds.filter Deed.isWork).filterMap Deed.eventTime? := by
    rw [Deed.filterMap_filter_isWork (f := Deed.eventTime?) fun _ _ => rfl, List.filterMap_filterMap]
    rfl
  rw [WindowConfig.after,
    Assembler.watermark_run (Assembler.sound_new hc) (Assembler.settled_new c), htimes]
  cases ((deeds.filter Deed.isWork).filterMap Deed.eventTime?).max? <;> rfl

theorem Command.filterMap_eventTime?_flatMap_deeds (sent : List Command) :
    (sent.flatMap deeds).filterMap Deed.eventTime? = sent.flatMap times := by
  rw [List.filterMap_flatMap]
  exact List.flatMap_congr fun c _ => c.eventTimes_deeds

/-- The watermark of a worker with an empty inbox is the highest time that was sent to it. -/
theorem Worker.Standing.watermark_eq {c : WindowConfig} {sent : List Command} {deeds : List Deed}
    {w : Worker} (h : Standing c sent deeds w) (hc : c.Valid) (hrunning : w.running = true)
    (hinbox : w.inbox = []) : w.assembler.watermark = (sent.flatMap Command.times).max? := by
  obtain ⟨-, hwork, hassembler, -⟩ := h.of_running hrunning
  rw [hinbox, List.flatMap_nil, List.append_nil] at hwork
  rw [hassembler, hc.watermark_after, hwork, Command.filterMap_eventTime?_flatMap_deeds]

/-- A worker that runs has emitted the slots of all windows that are closed under its watermark. -/
theorem Worker.Standing.phase_ne_closed {c : WindowConfig} {sent : List Command} {deeds : List Deed}
    {w : Worker} (h : Standing c sent deeds w) (hc : c.Valid) (hrunning : w.running = true)
    {slot : Slot} (hslot : slot ∈ w.assembler.slots) :
    c.phase w.assembler.watermark (c.windowOf slot.start) ≠ .closed := by
  obtain ⟨-, -, hassembler, -⟩ := h.of_running hrunning
  have hsettled : w.assembler.Settled := hassembler ▸ hc.settled_after deeds
  have hconfig : w.assembler.config = c := hassembler ▸ hc.config_after deeds
  rw [← hconfig]
  intro hclosed
  have hpassed := (Assembler.phase_eq_closed_iff (hconfig ▸ hc) slot.start).mp hclosed
  exact Int64.not_le.mpr (hsettled slot hslot) hpassed

/-- What a request may tell a worker has only times of the request. -/
theorem Request.Tells.times_subset {n i : Nat} {discard : Bool} {request : Request}
    {command : Command} (h : request.Tells n discard i command) :
    ∀ t ∈ command.times, t ∈ request.times discard := by
  intro t ht
  cases command with
  | ingest spans =>
    obtain ⟨x, hx, rfl⟩ := List.mem_map.mp ht
    exact (h x hx).2
  | advance time => exact List.mem_singleton.mp ht ▸ h
  | _ => simp [Command.times] at ht

/-! ### What callers have still to say -/

namespace Caller
variable {σ : Type} {c c' : Caller} {p q : Pipeline σ} {es : List Event} {t : Timestamp}

/-- The times that a caller has made known, or is about to. -/
def times (discard : Bool) (c : Caller) : List Timestamp :=
  c.made.flatMap (Request.times discard)

/-- Whether a caller has still to tell worker `i` of a time. -/
def Telling (i : Nat) (t : Timestamp) (c : Caller) : Prop :=
  ∃ request ticket call, c.task = some (.sending request ticket call) ∧
    (i, .advance t) ∈ call.sends

/-- Whether a caller has still to announce a time, or a higher one. -/
def Announcing (t : Timestamp) (c : Caller) : Prop :=
  ∃ request ticket call, c.task = some (.sending request ticket call) ∧
    ∃ u ∈ call.announcement, t ≤ u

/-- No send is refused as long as all workers run. -/
theorem Proper.exists_running {request : Request} {ticket : Option Nat} {i : Nat} {command : Command}
    {sends : List (Nat × Command)} {announcement : Option Timestamp} {discard : Bool}
    (h : c.Proper p.workers.size discard)
    (htask : c.task = some (.sending request ticket ⟨(i, command) :: sends, announcement⟩))
    (hrunning : ∀ w ∈ p.workers, w.running = true) :
    ∃ w, p.workers[i]? = some w ∧ w.running = true := by
  have hlt := (h.leaves _ _ _ htask).worker_lt _ List.mem_cons_self
  exact ⟨_, Array.getElem?_eq_getElem hlt, hrunning _ (Array.getElem_mem hlt)⟩

section
variable (hstep : Step c p es c' q) (hproper : c.Proper p.workers.size p.discard)
include hstep hproper

theorem Telling.step {i : Nat} (h : c.Telling i t) (hrunning : ∀ w ∈ p.workers, w.running = true) :
    .sent i (.advance t) ∈ es ∨ c'.Telling i t := by
  obtain ⟨request, ticket, call, htask, hmem⟩ := h
  cases hstep with
  | pause => exact .inr ⟨_, _, _, htask, hmem⟩
  | begin htask' => simp [htask'] at htask
  | send htask' =>
    simp only [htask', Option.some.injEq, Task.sending.injEq] at htask
    obtain ⟨rfl, rfl, rfl⟩ := htask
    rcases List.mem_cons.mp hmem with e | hmem
    · obtain ⟨rfl, rfl⟩ := Prod.mk.inj e
      exact .inl (List.mem_singleton_self _)
    · exact .inr ⟨_, _, _, rfl, hmem⟩
  | refuse htask' hended =>
    obtain ⟨w, hw, hw'⟩ := hproper.exists_running htask' hrunning
    simp [hended w hw] at hw'
  | announce htask' =>
    simp only [htask', Option.some.injEq, Task.sending.injEq] at htask
    obtain ⟨-, -, rfl⟩ := htask
    simp at hmem
  | finish htask' =>
    simp only [htask', Option.some.injEq, Task.sending.injEq] at htask
    obtain ⟨-, -, rfl⟩ := htask
    simp at hmem
  | collect htask' => simp [htask'] at htask

theorem Announcing.step (h : c.Announcing t) (hrunning : ∀ w ∈ p.workers, w.running = true) :
    t ≤ q.watermark ∨ c'.Announcing t := by
  obtain ⟨request, ticket, call, htask, u, hu, hle⟩ := h
  cases hstep with
  | pause => exact .inr ⟨_, _, _, htask, u, hu, hle⟩
  | begin htask' => simp [htask'] at htask
  | send htask' =>
    simp only [htask', Option.some.injEq, Task.sending.injEq] at htask
    obtain ⟨rfl, rfl, rfl⟩ := htask
    exact .inr ⟨_, _, _, rfl, u, hu, hle⟩
  | refuse htask' hended =>
    obtain ⟨w, hw, hw'⟩ := hproper.exists_running htask' hrunning
    simp [hended w hw] at hw'
  | @announce _ _ time htask' =>
    simp only [htask', Option.some.injEq, Task.sending.injEq] at htask
    obtain ⟨-, -, rfl⟩ := htask
    obtain rfl : time = u := Option.some.inj hu
    exact .inl (Int64.le_trans hle Std.right_le_max)
  | finish htask' hpassed =>
    simp only [htask', Option.some.injEq, Task.sending.injEq] at htask
    obtain ⟨-, -, rfl⟩ := htask
    exact .inl (Int64.le_trans hle (hpassed u hu))
  | collect htask' => simp [htask'] at htask

/-- The stream watermark stays, or rises to a time of the caller, which tells all workers then. -/
theorem Step.watermark : q.watermark = p.watermark ∨
    p.watermark < q.watermark ∧ q.watermark ∈ c'.times p.discard ∧
      ∀ i < p.workers.size, c'.Telling i q.watermark := by
  have raised : ∀ {time : Timestamp}, p.watermark < time → max p.watermark time = time := by
    intro time hlt
    rw [Timestamp.max_def, if_pos (Int64.le_of_lt hlt)]
  cases hstep with
  | pause => exact .inl rfl
  | @begin request script htask hscript =>
    cases request with
    | advance time =>
      by_cases hlt : p.watermark < time
      · have hq : (p.begin (.advance time)).1.watermark = time := raised hlt
        rw [hq]
        refine .inr ⟨hlt, ?_, fun i hi => ⟨_, _, _, rfl, Pipeline.mem_broadcast.mpr ⟨hi, rfl⟩⟩⟩
        simp [Caller.times, made, Request.times]
      · left
        show max p.watermark time = p.watermark
        rw [Timestamp.max_def]
        grind
    | _ => exact .inl rfl
  | send => exact .inl rfl
  | @refuse _ ticket => cases ticket <;> exact .inl rfl
  | @announce request ticket time htask hlt =>
    have hq : ∀ line, ((p.raise time).say line).watermark = time := fun _ => raised hlt
    rw [hq]
    refine .inr ⟨hlt, ?_, fun i hi => ⟨_, _, _, rfl, Pipeline.mem_broadcast.mpr ⟨hi, rfl⟩⟩⟩
    simp only [Caller.times, made, List.flatMap_append, List.mem_append]
    exact .inr (by simpa using (hproper.leaves _ _ _ htask).announcement time rfl)
  | finish => exact .inl rfl
  | collect => exact .inl rfl

theorem Step.watermark_le : p.watermark ≤ q.watermark := by
  rcases hstep.watermark hproper with hsame | ⟨hlt, -⟩
  · exact hsame ▸ Int64.le_refl _
  · exact Int64.le_of_lt hlt

/-- A caller that makes a new time known has announced it, or is going to announce one as high. -/
theorem Step.times (ht : t ∈ c'.times p.discard) :
    t ∈ c.times p.discard ∨ t ≤ q.watermark ∨ c'.Announcing t := by
  rcases hproper.made_step hstep with hmade | ⟨request, script, htask, -, rfl, rfl⟩
  · exact .inl (by rwa [Caller.times, hmade] at ht)
  · simp only [Caller.times, made, htask, List.flatMap_append, List.mem_append,
      List.flatMap_singleton, List.append_nil] at ht ⊢
    refine ht.imp_right fun ht => ?_
    cases request with
    | ingest spans =>
      cases hdiscard : p.discard with
      | true => simp [Request.times, hdiscard] at ht
      | false =>
        simp only [Request.times, hdiscard, Bool.false_eq_true, if_false] at ht
        have hannouncement : (p.begin (.ingest spans)).2.announcement
            = (spans.map Span.startTime).max? := by
          simp [Pipeline.begin, hdiscard, Pipeline.routing, Span.startTime_signed, Function.comp_def]
        obtain ⟨u, hu⟩ := Option.isSome_iff_exists.mp (List.isSome_max?_of_mem ht)
        refine .inr ⟨_, _, _, rfl, u, hannouncement.trans hu, ?_⟩
        exact (List.max?_eq_some_iff.mp hu).2 t ht
    | advance time =>
      obtain rfl := List.mem_singleton.mp ht
      exact .inl Std.right_le_max
    | sync => simp [Request.times] at ht
    | shutdown => simp [Request.times] at ht

end
end Caller

/-! ### The stream watermark -/

/-- The stream watermark is the highest of some times if it is one of them and none is higher. -/
theorem Pipeline.streamWatermark_eq_max? {σ : Type} {p : Pipeline σ} {times : List Timestamp}
    (hle : ∀ t ∈ times, Int64.minValue < t ∧ t ≤ p.watermark)
    (hmem : p.watermark = Int64.minValue ∨ p.watermark ∈ times) :
    p.streamWatermark = times.max? := by
  unfold streamWatermark
  split
  · next hmin =>
    refine (List.max?_eq_none_iff.mpr (List.eq_nil_iff_forall_not_mem.mpr fun t ht => ?_)).symm
    obtain ⟨hlt, hle⟩ := hle t ht
    exact Int64.not_le.mpr hlt (hmin ▸ hle)
  · next hmin =>
    exact (List.max?_eq_some_iff.mpr ⟨hmem.resolve_left hmin, fun t ht => (hle t ht).2⟩).symm

/-- The highest of some times, where the least timestamp stands for none. -/
theorem Timestamp.getD_max?_eq {m : Timestamp} {times : List Timestamp} (hle : ∀ t ∈ times, t ≤ m)
    (hmem : m = Int64.minValue ∨ m ∈ times) : times.max?.getD Int64.minValue = m := by
  cases hmax : times.max? with
  | none =>
    rw [List.max?_eq_none_iff.mp hmax] at hmem
    exact (hmem.resolve_right List.not_mem_nil).symm
  | some t =>
    obtain ⟨ht, hupper⟩ := List.max?_eq_some_iff.mp hmax
    rcases hmem with rfl | hm
    · exact Int64.le_antisymm (hle t ht) (Int64.minValue_le t)
    · exact Int64.le_antisymm (hle t ht) (hupper m hm)

@[simp] theorem Pipeline.getD_streamWatermark {σ : Type} (p : Pipeline σ) :
    p.streamWatermark.getD Int64.minValue = p.watermark := by
  unfold streamWatermark
  split
  · next hmin => exact hmin.symm
  · rfl

namespace System
variable {σ : Type} {h es : List Event} {s s' : System σ}

/-- The times that callers have made known, or are about to. -/
def routed (s : System σ) : List Timestamp :=
  s.made.flatMap (Request.times s.pipeline.discard)

theorem mem_routed {t : Timestamp} :
    t ∈ s.routed ↔ ∃ c ∈ s.callers, t ∈ c.times s.pipeline.discard := by
  rw [routed, made, List.flatMap_assoc]
  exact List.mem_flatMap

/-- Where the stream watermark comes from, and who knows or learns of it. -/
structure Announced (h : List Event) (s : System σ) : Prop where
  attained : s.pipeline.watermark = Int64.minValue ∨ s.pipeline.watermark ∈ s.routed
  told : s.pipeline.watermark = Int64.minValue ∨ ∀ i < s.pipeline.workers.size,
    .sent i (.advance s.pipeline.watermark) ∈ h ∨
      ∃ c ∈ s.callers, c.Telling i s.pipeline.watermark
  complete : ∀ t ∈ s.routed, t ≤ s.pipeline.watermark ∨ ∃ c ∈ s.callers, c.Announcing t

theorem announced_start (p : Pipeline σ) (hp : p.watermark = Int64.minValue)
    (scripts : List (List Request)) : Announced [] (start p scripts) where
  attained := .inl hp
  told := .inl hp
  complete t ht := by
    obtain ⟨c, hc, ht⟩ := mem_routed.mp ht
    obtain ⟨script, -, rfl⟩ := List.mem_map.mp hc
    simp [Caller.times, Caller.made] at ht

section
variable {i : Nat} {c c' : Caller} {q : Pipeline σ} (hs : Announced h s) (hc : s.callers[i]? = some c)
  (hstep : c.Step s.pipeline es c' q) (hproper : c.Proper s.pipeline.workers.size s.pipeline.discard)
  (hrunning : ∀ w ∈ s.pipeline.workers, w.running = true)
include hs hc hstep hproper hrunning

/-- A caller that raises the stream watermark is to tell all workers, and no other forgets to. -/
theorem Announced.told_step : q.watermark = Int64.minValue ∨ ∀ j < s.pipeline.workers.size,
    .sent j (.advance q.watermark) ∈ h ++ es ∨
      ∃ d ∈ s.callers.set i c', d.Telling j q.watermark := by
  rcases hstep.watermark hproper with hsame | ⟨-, -, htelling⟩
  · rw [hsame]
    refine hs.told.imp_right fun htold j hj => ?_
    rcases htold j hj with hsent | htelling
    · exact .inl (List.mem_append_left _ hsent)
    · by_cases hsent : .sent j (.advance s.pipeline.watermark) ∈ es
      · exact .inl (List.mem_append_right _ hsent)
      · exact .inr (exists_mem_set hc
          (fun h => (h.step hstep hproper hrunning).resolve_left hsent) htelling)
  · have hmem : c' ∈ s.callers.set i c' := List.mem_set (List.getElem?_eq_some_iff.mp hc).1 c'
    exact .inr fun j hj => .inr ⟨c', hmem, htelling j hj⟩

/-- A time that was routed is passed, or somebody has still to announce one as high. -/
theorem Announced.complete_step {t : Timestamp} (ht : t ∈ s.routed) :
    t ≤ q.watermark ∨ ∃ d ∈ s.callers.set i c', d.Announcing t := by
  rcases hs.complete t ht with hpassed | hannouncing
  · exact .inl (Int64.le_trans hpassed (hstep.watermark_le hproper))
  · by_cases hpassed : t ≤ q.watermark
    · exact .inl hpassed
    · exact .inr (exists_mem_set hc
        (fun h => (h.step hstep hproper hrunning).resolve_left hpassed) hannouncing)

end

/-- When no call is under way, the stream watermark is no lower than any time that was routed. -/
theorem Announced.le_watermark (hs : Announced h s) (hreturned : ∀ c ∈ s.callers, c.task = none)
    {t : Timestamp} (ht : t ∈ s.routed) : t ≤ s.pipeline.watermark := by
  rcases hs.complete t ht with hle | ⟨c, hc, request, ticket, call, htask, -⟩
  · exact hle
  · simp [hreturned c hc] at htask

/-- Nor is there a worker then that was not told of it. -/
theorem Announced.sent (hs : Announced h s) (hreturned : ∀ c ∈ s.callers, c.task = none) {i : Nat}
    (hi : i < s.pipeline.workers.size) : s.pipeline.watermark = Int64.minValue ∨
      .sent i (.advance s.pipeline.watermark) ∈ h := by
  refine hs.told.imp_right fun htold => ?_
  rcases htold i hi with hsent | ⟨c, hc, request, ticket, call, htask, -⟩
  · exact hsent
  · simp [hreturned c hc] at htask

/-- The stream watermark is the highest time that was routed, up to the least timestamp. -/
theorem Announced.getD_max?_routed (hs : Announced h s) (hreturned : ∀ c ∈ s.callers, c.task = none) :
    s.routed.max?.getD Int64.minValue = s.pipeline.watermark :=
  Timestamp.getD_max?_eq (fun _ ht => hs.le_watermark hreturned ht) hs.attained

/-- Times that were sent to workers were routed. -/
theorem Asked.mem_routed (ha : Asked h s) {i : Nat} {t : Timestamp}
    (ht : t ∈ (sentTo i h).flatMap Command.times) : t ∈ s.routed := by
  obtain ⟨command, hcommand, ht⟩ := List.mem_flatMap.mp ht
  obtain ⟨request, hrequest, htells⟩ := ha.sent i command (mem_sentTo.mp hcommand)
  exact List.mem_flatMap.mpr ⟨request, hrequest, htells.times_subset t ht⟩

/-- The stream watermark is the highest time that was sent to any worker, up to the least timestamp. -/
theorem Announced.getD_max?_sent (hs : Announced h s) (ha : Asked h s)
    (hreturned : ∀ c ∈ s.callers, c.task = none) {i : Nat} (hi : i < s.pipeline.workers.size) :
    ((sentTo i h).flatMap Command.times).max?.getD Int64.minValue = s.pipeline.watermark := by
  refine Timestamp.getD_max?_eq (fun t ht => hs.le_watermark hreturned (ha.mem_routed ht)) ?_
  refine (hs.sent hreturned hi).imp_right fun hsent => ?_
  exact List.mem_flatMap.mpr ⟨_, mem_sentTo.mpr hsent, List.mem_singleton_self _⟩

variable [Repository σ]

/-- Workers that run ran before. -/
theorem Step.running (hstep : s.Step es s') (h : ∀ w ∈ s'.pipeline.workers, w.running = true) :
    ∀ w ∈ s.pipeline.workers, w.running = true := by
  have hset : ∀ {i : Nat} {v w' : Worker}, s.pipeline.workers[i]? = some v → v.running = true →
      s'.pipeline.workers = s.pipeline.workers.setIfInBounds i w' →
      ∀ w ∈ s.pipeline.workers, w.running = true := by
    intro i v w' hv hrunning hworkers w hw
    obtain ⟨j, hlt, hj⟩ := Array.mem_iff_getElem.mp hw
    by_cases hij : i = j
    · subst hij
      have : v = w := Option.some.inj (hv.symm.trans (hj ▸ Array.getElem?_eq_getElem hlt))
      exact this ▸ hrunning
    · refine h w (Array.mem_of_getElem? (i := j) ?_)
      rw [hworkers, Array.getElem?_setIfInBounds_ne hij, ← hj]
      exact Array.getElem?_eq_getElem hlt
  cases hstep with
  | pass => exact h
  | worker hw hrunning _ hput => exact hset hw hrunning hput.workers
  | caller hc hstep =>
    rcases hstep.aside_or_sent with ⟨-, haside⟩ | ⟨i, command, w, ready, -, hw, hrunning, rfl⟩
    · exact haside.workers ▸ h
    · exact hset hw hrunning rfl

theorem Announced.step (hs : Announced h s) (ha : Asked h s)
    (hrunning : ∀ w ∈ s.pipeline.workers, w.running = true) (hstep : s.Step es s') :
    Announced (h ++ es) s' := by
  obtain ⟨hsize, -, hdiscard⟩ := hstep.same
  have hrouted : ∀ t ∈ s.routed, t ∈ s'.routed := by
    simp only [routed, List.mem_flatMap, hdiscard]
    rintro t ⟨request, hrequest, ht⟩
    exact ⟨request, ha.made_subset hstep hrequest, ht⟩
  cases hstep with
  | pass => exact (List.append_nil h).symm ▸ hs
  | worker _ _ _ hput =>
    obtain ⟨hattained, htold, hcomplete⟩ := hs
    refine ⟨hput.watermark ▸ hattained.imp_right (hrouted _), ?_, ?_⟩
    · rw [hput.watermark, hsize]
      exact htold.imp_right fun h i hi => (h i hi).imp_left (List.mem_append_left _)
    · simpa only [routed, made, hput.watermark, hput.discard] using hcomplete
  | @caller i c c' q _ hc hstep =>
    have hproper := ha.proper c (List.mem_of_getElem? hc)
    have hmem : c' ∈ s.callers.set i c' := List.mem_set (List.getElem?_eq_some_iff.mp hc).1 c'
    refine ⟨?_, hsize ▸ hs.told_step hc hstep hproper hrunning, fun t ht => ?_⟩
    · rcases hstep.watermark hproper with hsame | ⟨-, ht, -⟩
      · exact hsame ▸ hs.attained.imp_right (hrouted _)
      · exact .inr (mem_routed.mpr ⟨c', hmem, hdiscard ▸ ht⟩)
    · have hold : t ∈ s.routed → _ := hs.complete_step hc hstep hproper hrunning
      obtain ⟨d, hd, htd⟩ := mem_routed.mp ht
      rw [hdiscard] at htd
      rcases List.mem_or_eq_of_mem_set hd with hd | rfl
      · exact hold (mem_routed.mpr ⟨d, hd, htd⟩)
      · rcases hstep.times hproper htd with ht | hpassed | hannouncing
        · exact hold (mem_routed.mpr ⟨c, List.mem_of_getElem? hc, ht⟩)
        · exact .inl hpassed
        · exact .inr ⟨_, hmem, hannouncing⟩

/-- As long as all workers run, the stream watermark is known to all or on its way to them. -/
theorem announced_run (p : Pipeline σ) (hp : p.watermark = Int64.minValue)
    (scripts : List (List Request)) (schedule : List Actor)
    (hrunning : ∀ w ∈ ((start p scripts).run schedule).pipeline.workers, w.running = true) :
    Announced ((start p scripts).history schedule) ((start p scripts).run schedule) := by
  refine (history_induction (I := fun h s => Asked h s ∧
    ((∀ w ∈ s.pipeline.workers, w.running = true) → Announced h s))
    ?_ ⟨asked_start p scripts, fun _ => announced_start p hp scripts⟩ schedule).2 hrunning
  rintro h s es s' ⟨ha, hs⟩ hstep
  refine ⟨ha.step hstep, fun hrunning' => ?_⟩
  have hrunning := hstep.running hrunning'
  exact (hs hrunning).step ha hrunning hstep

/-- For every number of callers and whatever the schedule: when all calls have returned, all inboxes
are empty, and nobody has asked for a shutdown, the watermark of every worker is the stream
watermark, and that is the highest time routed; no slot of a window that is closed under it is left.
Saves may fail, but none may have broken down together with its worker. -/
theorem watermarks_agree {settings : Settings} (hsettings : settings.check = .ok ()) (store : σ) :
    ∃ p, Pipeline.start settings store = .ok p ∧
      ∀ (scripts : List (List Request)) (schedule : List Actor),
        let s := (start p scripts).run schedule
        (∀ c ∈ s.callers, c.task = none) → (∀ w ∈ s.pipeline.workers, w.inbox = []) →
        .shutdown ∉ s.made →
        (∀ e ∈ (start p scripts).history schedule, e.isCrash = false) →
        (∀ t ∈ s.routed, Int64.minValue < t) →
        s.pipeline.streamWatermark = s.routed.max? ∧
          ∀ w ∈ s.pipeline.workers, w.assembler.watermark = s.pipeline.streamWatermark ∧
            ∀ slot ∈ w.assembler.slots, settings.windows.phase s.pipeline.streamWatermark
              (settings.windows.windowOf slot.start) ≠ .closed := by
  refine ⟨_, Pipeline.start_eq hsettings store, ?_⟩
  intro scripts schedule s hreturned hdrained hasked hcrashes htimes
  have hvalid := (Settings.check_eq_ok_iff.mp hsettings).1
  have hr := recorded_run settings store scripts schedule
  have ha := asked_run (Pipeline.initial settings store) scripts schedule
  have hrunning := hr.running ha hasked hcrashes
  have hs := announced_run (Pipeline.initial settings store) rfl scripts schedule hrunning
  have hle : ∀ t ∈ s.routed, Int64.minValue < t ∧ t ≤ s.pipeline.watermark :=
    fun t ht => ⟨htimes t ht, hs.le_watermark hreturned ht⟩
  have hmax : s.pipeline.streamWatermark = s.routed.max? :=
    Pipeline.streamWatermark_eq_max? hle hs.attained
  refine ⟨hmax, fun w hw => ?_⟩
  obtain ⟨i, hlt, hi⟩ := Array.mem_iff_getElem.mp hw
  have hstanding := hr.standing i w (hi ▸ Array.getElem?_eq_getElem hlt)
  have hagree : w.assembler.watermark = s.pipeline.streamWatermark := by
    rw [hstanding.watermark_eq hvalid (hrunning w hw) (hdrained w hw)]
    refine (Pipeline.streamWatermark_eq_max? (fun t ht => ?_) ?_).symm
    · obtain ⟨command, hcommand, ht⟩ := List.mem_flatMap.mp ht
      obtain ⟨request, hrequest, htells⟩ := ha.sent i command (mem_sentTo.mp hcommand)
      exact hle t (List.mem_flatMap.mpr ⟨request, hrequest, htells.times_subset t ht⟩)
    · refine (hs.sent hreturned hlt).imp_right fun hsent => ?_
      exact List.mem_flatMap.mpr ⟨_, mem_sentTo.mpr hsent, List.mem_singleton_self _⟩
  exact ⟨hagree, fun slot hslot => hagree ▸ hstanding.phase_ne_closed hvalid (hrunning w hw) hslot⟩

/-- The caller with the lower time comes second and returns before anybody has told the workers. -/
theorem watermarks_agree_after_race :
    let span (id : String) (time : Timestamp) : Span :=
      { traceId := "t", spanId := id, operationHash := "f", startTime := time }
    let scripts : List (List Request) := [[.ingest [span "a" 7]], [.ingest [span "b" 5]]]
    let schedule : List Actor := List.replicate 3 (.caller 0) ++ List.replicate 3 (.caller 1)
      ++ List.replicate 3 (.caller 0) ++ (List.replicate 5 [.worker 0, .worker 1]).flatten
    ∃ p, Pipeline.start { partitions := 2 } ({} : Store) = .ok p ∧
      let s := (start p scripts).run schedule
      s.pipeline.streamWatermark = some 7 ∧
        ∀ w ∈ s.pipeline.workers, w.assembler.watermark = some 7 := by
  intro span scripts schedule
  have hsettings : Settings.check { partitions := 2 } = .ok () := by decide
  obtain ⟨p, hp, hagree⟩ := watermarks_agree hsettings ({} : Store)
  obtain rfl := Except.ok.inj (hp.symm.trans (Pipeline.start_eq hsettings _))
  have hrouted : ((start (Pipeline.initial { partitions := 2 } ({} : Store)) scripts).run
      schedule).routed = [7, 5] := by decide +kernel
  have htimes : ∀ t ∈ ((start (Pipeline.initial { partitions := 2 } ({} : Store)) scripts).run
      schedule).routed, Int64.minValue < t := by
    rw [hrouted]
    exact List.forall_mem_cons.mpr ⟨by decide, List.forall_mem_singleton.mpr (by decide)⟩
  obtain ⟨hmax, hworkers⟩ := hagree scripts schedule (by decide +kernel) (by decide +kernel)
    (by decide +kernel) (by decide +kernel) htimes
  have hseven := hmax.trans (congrArg List.max? hrouted)
  exact ⟨_, hp, hseven, fun w hw => (hworkers w hw).1.trans hseven⟩

end System
end CallTrace
