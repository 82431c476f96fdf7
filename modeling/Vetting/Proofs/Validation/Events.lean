import Vetting.Proofs.Report.Grouping
import Vetting.Proofs.Validation.Gathering
import Vetting.Proofs.Validation.Halt

/-!
# What a validation tells its log

A run tells of each rule to which the turn comes, by one event at the place of
the rule: that it is skipped, or that it is run. If the run ends with a report,
one more event comes last, with the number of messages and the keys at the root
of the report. So the log has an event for every rule of the line, unless a rule
ends the run, and then the event of that rule is the last.
-/

namespace Vetting

def closingEvents : Except Fault Unit → List Event
  | .error (.invalid e) => [.failed e.messages.length e.keys]
  | _ => []

theorem of_mem_closingEvents {result : Except Fault Unit} {event : Event}
    (h : event ∈ closingEvents result) :
    event.level = "DEBUG" ∧ event.message = "Validation failed" ∧
      ∃ e, result = .error (.invalid e) ∧ event = .failed e.messages.length e.keys := by
  unfold closingEvents at h
  split at h
  · rename_i e
    rw [List.mem_singleton.1 h]
    exact ⟨rfl, rfl, e, rfl, rfl⟩
  · cases h

section
variable {σ ι : Type}

/-- There is one event for each rule to which the turn comes. -/
structure TraceOf (bindings : Bindings σ) (x : ι) (args : Option Arguments)
    (line : List (Posting ι)) (memos : Memos) (s : σ) (events : List Event) : Prop where
  reached : ∀ k, k < events.length ↔ ∃ p turns, ComesTo bindings x args line memos s k p turns
  skipped : ∀ k p, SkippedAt bindings x args line memos s k p →
    events[k]? = some (.skipping p.rule.name (bindings.dependencies p.id))
  executed : ∀ k p, ExecutedAt bindings x args line memos s k p →
    events[k]? = some (.running p.rule.name)

variable {bindings : Bindings σ} {x : ι} {args : Option Arguments} {line : List (Posting ι)}
  {memos memos₀ : Memos} {s s₀ : σ} {turns : List (Turn ι)} {p q : Posting ι} {k : Nat}
  {events : List Event}

/-! ## The next event -/

def nextEvent (bindings : Bindings σ) (turns : List (Turn ι)) (p : Posting ι) : Event :=
  if (bindings.dependencies p.id).meets (Turn.lostBy turns) then
    .skipping p.rule.name (bindings.dependencies p.id)
  else .running p.rule.name

theorem traceOf_of_nextEvent
    (hreached : ∀ k, k < events.length ↔ ∃ p turns, ComesTo bindings x args line memos s k p turns)
    (hnext : ∀ k p turns, ComesTo bindings x args line memos s k p turns →
      events[k]? = some (nextEvent bindings turns p)) :
    TraceOf bindings x args line memos s events := by
  refine ⟨hreached, fun k p h => ?_, fun k p h => ?_⟩
  · obtain ⟨turns, hcomes, hmeets⟩ := h
    rw [hnext k p turns hcomes, nextEvent, if_pos hmeets]
  · obtain ⟨turns, hcomes, hmeets⟩ := h
    rw [hnext k p turns hcomes, nextEvent, hmeets]
    rfl

theorem comesTo_of_course {rest : List (Posting ι)} {front after : List (Turn ι)} {t : Turn ι}
    (h : Course bindings x (args.getD ∅) memos₀ s₀ turns memos s)
    (hline : line = turns.map Turn.posting ++ rest) (hturns : turns = front ++ t :: after) :
    ComesTo bindings x args line memos₀ s₀ front.length t.posting front ∧
      t.event bindings = nextEvent bindings front t.posting := by
  have hpre : front <+: turns := ⟨t :: after, hturns.symm⟩
  obtain ⟨memos', s', hfront⟩ := course_of_prefix h hpre
  refine ⟨⟨⟨memos', s', hfront⟩, rfl, after.map Turn.posting ++ rest, ?_⟩, ?_⟩
  · rw [hline, hturns]
    simp
  · have hrun := isRun_iff_of_course h hturns
    unfold nextEvent
    cases t with
    | skipped q =>
      have hmeets : (bindings.dependencies q.id).meets (Turn.lostBy front) = true := by
        simpa [Turn.isRun, Turn.posting] using hrun
      rw [Turn.posting, if_pos hmeets]
      rfl
    | ran q given outcome =>
      have hmeets : (bindings.dependencies q.id).meets (Turn.lostBy front) = false := by
        simpa [Turn.isRun, Turn.posting] using hrun
      rw [Turn.posting, hmeets]
      rfl

theorem exists_comesTo_of_course {rest : List (Posting ι)}
    (h : Course bindings x (args.getD ∅) memos₀ s₀ turns memos s)
    (hline : line = turns.map Turn.posting ++ rest) (hk : k < turns.length) :
    ∃ p front, ComesTo bindings x args line memos₀ s₀ k p front ∧
      (turns.map (Turn.event bindings))[k]? = some (nextEvent bindings front p) := by
  have hturns : turns = turns.take k ++ turns[k] :: turns.drop (k + 1) := by simp
  have hlength : (turns.take k).length = k := by simp; omega
  obtain ⟨hcomes, hevent⟩ := comesTo_of_course h hline hturns
  rw [hlength] at hcomes
  refine ⟨_, _, hcomes, ?_⟩
  rw [List.getElem?_map, List.getElem?_eq_getElem hk, Option.map_some, hevent]

theorem ComesTo.event_of_course {rest : List (Posting ι)} {front : List (Turn ι)}
    (hp : ComesTo bindings x args line memos₀ s₀ k p front)
    (h : Course bindings x (args.getD ∅) memos₀ s₀ turns memos s)
    (hline : line = turns.map Turn.posting ++ rest) (hk : k < turns.length) :
    (turns.map (Turn.event bindings))[k]? = some (nextEvent bindings front p) := by
  obtain ⟨q, front', hq, hevent⟩ := exists_comesTo_of_course h hline hk
  obtain ⟨rfl, rfl⟩ := hp.unique hq
  exact hevent

/-! ## The trace of a run -/

theorem traceOf_course (h : Course bindings x (args.getD ∅) memos₀ s₀ turns memos s)
    (hline : line = turns.map Turn.posting) :
    TraceOf bindings x args line memos₀ s₀ (turns.map (Turn.event bindings)) := by
  have hline' : line = turns.map Turn.posting ++ [] := by rw [hline, List.append_nil]
  have hlt : ∀ {k p front}, ComesTo bindings x args line memos₀ s₀ k p front → k < turns.length := by
    intro k p front hcomes
    have := hcomes.lt_length
    rwa [hline, List.length_map] at this
  apply traceOf_of_nextEvent
  · intro k
    rw [List.length_map]
    refine ⟨fun hk => ?_, fun ⟨p, front, hcomes⟩ => hlt hcomes⟩
    obtain ⟨p, front, hcomes, -⟩ := exists_comesTo_of_course h hline' hk
    exact ⟨p, front, hcomes⟩
  · intro k p front hcomes
    exact hcomes.event_of_course h hline' (hlt hcomes)

theorem traceOf_halt {rest : List (Posting ι)} {fault : Fault}
    (h : Course bindings x (args.getD ∅) memos₀ s₀ turns memos s)
    (hline : line = turns.map Turn.posting ++ p :: rest)
    (hm : (bindings.dependencies p.id).meets (Turn.lostBy turns) = false)
    (hhalts : p.rule.Halts x (args.getD ∅) fault) :
    TraceOf bindings x args line memos₀ s₀
      (turns.map (Turn.event bindings) ++ [.running p.rule.name]) := by
  have hlast : ComesTo bindings x args line memos₀ s₀ turns.length p turns :=
    ⟨⟨memos, s, h⟩, rfl, rest, hline⟩
  apply traceOf_of_nextEvent
  · intro k
    rw [List.length_append, List.length_map, List.length_singleton, Nat.lt_succ_iff]
    constructor
    · intro hk
      rcases Nat.lt_or_eq_of_le hk with hk | rfl
      · obtain ⟨q, front, hcomes, -⟩ := exists_comesTo_of_course h hline hk
        exact ⟨q, front, hcomes⟩
      · exact ⟨p, turns, hlast⟩
    · intro ⟨q, front, hcomes⟩
      exact hcomes.le_of_halts ⟨turns, hlast, hm⟩ hhalts
  · intro k q front hcomes
    rcases Nat.lt_or_eq_of_le (hcomes.le_of_halts ⟨turns, hlast, hm⟩ hhalts) with hk | rfl
    · rw [List.getElem?_append_left (by simpa using hk)]
      exact hcomes.event_of_course h hline hk
    · obtain ⟨rfl, rfl⟩ := hlast.unique hcomes
      rw [List.getElem?_append_right (by simp), nextEvent, hm]
      simp

theorem conclude_events (gathered : Option Report) (memos : Memos) (s : σ) :
    (conclude gathered memos s).events = closingEvents (conclude gathered memos s).result := by
  unfold conclude
  cases gathered with
  | none => rfl
  | some report =>
    cases h : report.isEmpty with
    | true => simp [h, closingEvents]
    | false => simp [h, closingEvents]

theorem exists_traceOf (bindings : Bindings σ) (x : ι) (args : Option Arguments)
    (line : List (Posting ι)) (memos : Memos) (s : σ) :
    ∃ events, TraceOf bindings x args line memos s events ∧
      (validate bindings x args line memos s).events =
        events ++ closingEvents (validate bindings x args line memos s).result := by
  rcases course_or_halt bindings x (args.getD ∅) memos s line with
    ⟨turns, memos', s', hc, hl⟩ | ⟨turns, memos', s', p, rest, fault, hc, hl, hm, hf, hi⟩
  · refine ⟨_, traceOf_course hc hl.symm, ?_⟩
    rw [← hl, validate_of_course hc]
    exact congrArg (_ ++ ·) (conclude_events (Turn.gathered turns) memos' s')
  · refine ⟨_, traceOf_halt hc hl hm (attempt_halts_iff.1 hf), ?_⟩
    rcases ha : attempt bindings x (args.getD ∅) p memos' s' with ⟨verdict, calls, memos'', s''⟩
    rw [ha] at hf
    cases hf
    have hnone : closingEvents (.error fault) = [] := by
      cases fault with
      | invalid e => cases hi
      | _ => rfl
    unfold validate
    rw [hl, validateFrom_of_course hc, validateFrom_halt hm ha]
    show _ = _ ++ closingEvents (.error fault)
    rw [hnone, List.append_nil]
    rfl

theorem TraceOf.level (h : TraceOf bindings x args line memos s events) :
    ∀ event ∈ events, event.level = "TRACE" := by
  intro event hevent
  obtain ⟨k, hk, rfl⟩ := List.getElem_of_mem hevent
  obtain ⟨p, turns, hcomes⟩ := (h.reached k).1 hk
  rcases hcomes.skipped_or_executed with hskipped | hexecuted
  · have heq := h.skipped k p hskipped
    rw [List.getElem?_eq_getElem hk] at heq
    rw [Option.some.inj heq]
    rfl
  · have heq := h.executed k p hexecuted
    rw [List.getElem?_eq_getElem hk] at heq
    rw [Option.some.inj heq]
    rfl

theorem TraceOf.length_le (h : TraceOf bindings x args line memos s events) :
    events.length ≤ line.length := by
  refine Nat.not_lt.1 fun hlt => ?_
  obtain ⟨p, turns, hcomes⟩ := (h.reached line.length).1 hlt
  exact Nat.lt_irrefl _ hcomes.lt_length

theorem TraceOf.length_of_turnsOf (h : TraceOf bindings x args line memos s events)
    (ht : TurnsOf bindings x args line memos s turns) : events.length = line.length := by
  have hturns := traceOf_course ht.course ht.postings.symm
  refine Nat.le_antisymm h.length_le (Nat.not_lt.1 fun hlt => ?_)
  have hreached := (hturns.reached events.length).1
    (by rw [List.length_map, ← List.length_map Turn.posting, ht.postings]; exact hlt)
  exact Nat.lt_irrefl _ ((h.reached _).2 hreached)

theorem TraceOf.length_of_halts {fault : Fault}
    (h : TraceOf bindings x args line memos s events)
    (hp : ExecutedAt bindings x args line memos s k p)
    (hhalts : p.rule.Halts x (args.getD ∅) fault) : events.length = k + 1 := by
  have ⟨turns, hcomes, _⟩ := hp
  have hlt := (h.reached k).2 ⟨p, turns, hcomes⟩
  refine Nat.le_antisymm (Nat.not_lt.1 fun hgt => ?_) hlt
  obtain ⟨q, turns', hcomes'⟩ := (h.reached (k + 1)).1 hgt
  exact Nat.not_succ_le_self k (hcomes'.le_of_halts hp hhalts)

/-- A run has told by one event of each rule to which the turn came, and of each rule of the line
unless a rule has ended the run, which is the last that is told of then. If the run ends with a
report, and only then, it has told last of the report: how many messages the rules have reported
at the root, and the keys in the order in which they were first reported. -/
theorem events_follow_course (bindings : Bindings σ) (x : ι) (args : Option Arguments)
    (line : List (Posting ι)) (memos : Memos) (s : σ) :
    let run := validate bindings x args line memos s
    ∃ events, run.events = events ++ closingEvents run.result ∧
      (∀ event ∈ closingEvents run.result,
        event.level = "DEBUG" ∧ event.message = "Validation failed" ∧
        ∃ e, run.result = .error (.invalid e) ∧ event = .failed e.messages.length e.keys) ∧
      TraceOf bindings x args line memos s events ∧
      (∀ event ∈ events, event.level = "TRACE") ∧ events.length ≤ line.length ∧
      (run.result = .ok () → events.length = line.length) ∧
      (∀ e, run.result = .error (.invalid e) → events.length = line.length ∧
        ∃ turns, TurnsOf bindings x args line memos s turns ∧
          e.messages = turns.flatMap (Turn.messagesAt []) ∧
          e.keys = ((Turn.reports turns).flatMap Report.keys).eraseDups) ∧
      ∀ fault, run.result = .error fault → fault.isInvalid = false →
        ∃ k p, events.length = k + 1 ∧ ExecutedAt bindings x args line memos s k p ∧
          p.rule.Halts x (args.getD ∅) fault := by
  intro run
  obtain ⟨events, htrace, hevents⟩ := exists_traceOf bindings x args line memos s
  refine ⟨events, hevents, fun event => of_mem_closingEvents, htrace, htrace.level,
    htrace.length_le, ?_, ?_, ?_⟩
  · intro hok
    obtain ⟨turns, ht, -⟩ := turnsOf_of_ok hok
    exact htrace.length_of_turnsOf ht
  · intro e he
    obtain ⟨turns, ht, hmerge, -⟩ := turnsOf_of_invalid he
    refine ⟨htrace.length_of_turnsOf ht, turns, ht, ?_, ?_⟩
    · rw [hmerge]
      exact messagesAt_mergeAll_reports turns []
    · rw [hmerge]
      exact Report.keysAt_mergeAll [] (Turn.reports turns)
  · intro fault hfault hinvalid
    obtain ⟨k, p, hp, hhalts⟩ := result_eq_error_iff.1 ⟨hfault, hinvalid⟩
    exact ⟨k, p, htrace.length_of_halts hp hhalts, hp, hhalts⟩

example :
    let bindings : Bindings Unit := (∅ : Bindings Unit).set 1 ⟨"T", .ofList ["body"], .none⟩
    let line := [refusing 0 "loser" (.invalid (.atPath ["body"] "is empty")) ["body"],
      refusing 1 "reader" (.breach "never called") [],
      refusing 2 "other" (.invalid (.message "no title")) []]
    (validate bindings () none line ∅ ()).events = [.running "loser",
      .skipping "reader" (.ofList ["body"]), .running "other", .failed 1 ["body"]] :=
  rfl

end

end Vetting
