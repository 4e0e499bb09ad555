import BlockRing.Proofs.Reach
import Mathlib.Data.List.Forall2

/-!
# Observed runs

Where the growths of a queue are made known has no part in what the queue does.

- Two queues that differ in their reporting only are mirrors (`Queue.Mirrors`). What is asked of both goes `Beside` the
  other: it stops with the same fault, or it comes to the same reply and to mirrors again, with the same growths to
  report (`Queue.Mirrors.push`, `Queue.Mirrors.pop`, `Queue.Mirrors.ask`).
- A request that sets or clears the observer does nothing but that (`Queue.Mirrors.ask_of_observes`). So one of them
  more or less makes no difference between two runs (`Run.Agrees.cons_left`, `Run.Agrees.cons_right`), and a run of
  mirrors is the same in both, whatever each of them is asked about its observer (`Queue.Mirrors.run`).
- **Two runs that differ only in the verbose flag and in such requests** have the same replies, leave the same queues
  but for the reporting, and log the same growths (`observation_has_no_effect`).
-/

namespace BlockRing

/-! ## Computations side by side -/

/-- Two computations go side by side: they stop with the same fault, or both come to results that are related. -/
inductive Beside {α β : Type} (R : α → β → Prop) : Except Fault α → Except Fault β → Prop
  | stopped (fault : Fault) : Beside R (.error fault) (.error fault)
  | done {x : α} {y : β} (h : R x y) : Beside R (.ok x) (.ok y)

section Beside

variable {α β γ δ : Type} {R : α → β → Prop} {S : γ → δ → Prop}

/-- Sequences go side by side if both of their parts do. -/
theorem Beside.bind {x : Except Fault α} {y : Except Fault β} {f : α → Except Fault γ} {g : β → Except Fault δ}
    (h : Beside R x y) (hf : ∀ a b, R a b → Beside S (f a) (g b)) : Beside S (x >>= f) (y >>= g) := by
  cases h with
  | stopped fault => exact .stopped fault
  | done h => exact hf _ _ h

/-- What comes after a common part has to go side by side. -/
theorem Beside.after (x : Except Fault α) {f : α → Except Fault γ} {g : α → Except Fault δ}
    (hf : ∀ a, Beside S (f a) (g a)) : Beside S (x >>= f) (x >>= g) := by
  cases x with
  | error fault => exact .stopped fault
  | ok a => exact hf a

theorem Beside.imp {x : Except Fault α} {y : Except Fault β} {T : α → β → Prop} (h : Beside R x y)
    (hi : ∀ a b, R a b → T a b) : Beside T x y := by
  cases h with
  | stopped fault => exact .stopped fault
  | done h => exact .done (hi _ _ h)

end Beside

/-! ## What is reported -/

/-- The log record among the reports of a growth. -/
def Report.record? : Report → Option LogRecord
  | .log record => some record
  | .notice _ _ => none

/-- Whether a field shows a capacity, as it does for every queue. -/
def LogField.isSize : LogField → Bool
  | .previousCapacity _ | .capacity _ => true
  | .elapsed | .wrapped _ => false

/-- A record without its level and without the fields that only a verbose queue shows. -/
def LogRecord.brief (record : LogRecord) : LogRecord :=
  { record with level := .trace, fields := record.fields.filter LogField.isSize }

/-- All records of a growth are the same in brief. -/
theorem Growth.brief_record (growth : Growth) (verbose : Bool) :
    (growth.record verbose).brief = growth.record false := by
  cases verbose <;> rfl

/-- Of the reports of some growths the log shows one record each. -/
theorem Reporting.filterMap_record? (reporting : Reporting) (growths : List Growth) :
    (growths.flatMap reporting.reports).filterMap Report.record? = growths.map (·.record reporting.verbose) := by
  induction growths with
  | nil => rfl
  | cons growth growths ih =>
    rw [List.flatMap_cons, List.filterMap_append, ih, List.map_cons]
    cases hobs : reporting.observer <;> simp [reports, hobs, Report.record?]

namespace Queue

/-- The queue as it is, with its growths made known elsewhere. -/
def reportTo (q : Queue) (reporting : Reporting) : Queue := { q with reporting }

/-- Queues that report to `s` and to `s'` and differ in nothing else. -/
structure Mirrors (s s' : Reporting) (q q' : Queue) : Prop where
  eq_reportTo : q' = q.reportTo s'
  reporting_eq : q.reporting = s

end Queue

/-- The same growths are reported, to `s` and to `s'`. -/
def Reporting.Echo (s s' : Reporting) (reports reports' : List Report) : Prop :=
  ∃ growths : List Growth, reports = growths.flatMap s.reports ∧ reports' = growths.flatMap s'.reports

/-- A request that sets or clears the observer. -/
def Request.observes : Request → Bool
  | .observe _ | .unobserve => true
  | _ => false

/-- Outcomes with the same reply, of queues that report to `s` and to `s'` and have the same growths to report. -/
structure Outcome.Mirrors {α : Type} (s s' : Reporting) (x x' : Outcome α) : Prop where
  reply_eq : x'.reply = x.reply
  queue : x.queue.Mirrors s s' x'.queue
  reports : s.Echo s' x.reports x'.reports

theorem Reporting.Echo.nil (s s' : Reporting) : s.Echo s' [] [] := ⟨[], rfl, rfl⟩

theorem Outcome.Mirrors.map {α β : Type} {s s' : Reporting} {x x' : Outcome α} (h : x.Mirrors s s' x') (f : α → β) :
    (x.map f).Mirrors s s' (x'.map f) := ⟨congrArg f h.reply_eq, h.queue, h.reports⟩

namespace Queue
namespace Mirrors

variable {q q' : Queue} {s s' : Reporting}

theorem symm (h : Mirrors s s' q q') : Mirrors s' s q' q := by
  obtain ⟨rfl, rfl⟩ := h
  exact ⟨rfl, rfl⟩

/-- Mirrors differ in nothing but where they report ... -/
theorem queue_eq (h : Mirrors s s' q q') : q' = q.reportTo q'.reporting := by
  obtain ⟨rfl, rfl⟩ := h
  rfl

/-- ... which cannot be seen. -/
theorem snapshot_eq (h : Mirrors s s' q q') : q'.snapshot = q.snapshot := by
  obtain ⟨rfl, rfl⟩ := h
  rfl

/-! ## Writing and growing -/

theorem writeBlock (h : Mirrors s s' q q') (size : Nat) (payload : Payload) :
    Beside (Mirrors s s') (q.writeBlock size payload) (q'.writeBlock size payload) := by
  obtain ⟨rfl, rfl⟩ := h
  unfold Queue.writeBlock
  refine .after _ fun header => .after _ fun payloadStart => .after _ fun stop => .after _ fun written => ?_
  exact .after _ fun filled => .after _ fun cursors => .done ⟨rfl, rfl⟩

theorem coverGap (h : Mirrors s s' q q') : Beside (Mirrors s s') q.coverGap q'.coverGap := by
  have hc : q'.cursors = q.cursors := by rw [h.eq_reportTo]; rfl
  rw [Queue.coverGap, Queue.coverGap, hc]
  split
  · exact .done h
  · refine .after _ fun gap => ?_
    split
    · exact .stopped _
    · exact h.writeBlock gap _

theorem straighten (h : Mirrors s s' q q') : Beside (Mirrors s s') q.straighten q'.straighten := by
  refine h.coverGap.bind fun r r' h => ?_
  obtain ⟨rfl, rfl⟩ := h
  exact .done ⟨rfl, rfl⟩

theorem moveInto (h : Mirrors s s' q q') (buffer : Buffer) :
    Beside (fun moved moved' => Mirrors s s' moved.1 moved'.1 ∧ moved'.2 = moved.2) (q.moveInto buffer)
      (q'.moveInto buffer) := by
  obtain ⟨rfl, rfl⟩ := h
  have hm : (q.reportTo s').cursors.margin = q.cursors.margin := rfl
  rw [Queue.moveInto, Queue.moveInto, hm]
  split
  · exact .done ⟨⟨rfl, rfl⟩, rfl⟩
  · refine .after _ fun used => .after _ fun buffer => ?_
    have hr : Mirrors q.reporting s' { q with buffer } { q.reportTo s' with buffer } := ⟨rfl, rfl⟩
    show Beside _ (if q.cursors.tail ≤ q.cursors.head then _ else _) (if q.cursors.tail ≤ q.cursors.head then _ else _)
    split
    · exact hr.straighten.bind fun r r' h => .done ⟨h, rfl⟩
    · exact .done ⟨hr, rfl⟩

/-- A growth is the same wherever it is reported. -/
theorem grow (h : Mirrors s s' q q') (need : Nat) :
    Beside (Outcome.Mirrors s s') (q.grow need) (q'.grow need) := by
  have hk : q'.grownCapacity need = q.grownCapacity need := by rw [h.eq_reportTo]; rfl
  rw [Queue.grow, Queue.grow, hk]
  refine .after _ fun buffer => (h.moveInto buffer).bind fun moved moved' hm => ?_
  obtain ⟨moved, wrapped⟩ := moved
  obtain ⟨moved', wrapped'⟩ := moved'
  obtain ⟨⟨rfl, hr⟩, hw⟩ := hm
  obtain rfl : wrapped' = wrapped := hw
  obtain ⟨rfl, rfl⟩ := h
  refine .done ⟨rfl, ⟨rfl, hr⟩, [⟨q.capacity, q.grownCapacity need, wrapped'⟩], ?_, ?_⟩
  · simp
  · simp [reportTo, Queue.capacity]

/-! ## Appending and removing -/

theorem appendAtTail (h : Mirrors s s' q q') (need : Nat) (payload : Payload) :
    Beside (Mirrors s s') (q.appendAtTail need payload) (q'.appendAtTail need payload) := by
  refine (h.writeBlock need payload).bind fun r r' h => ?_
  obtain ⟨rfl, rfl⟩ := h
  exact .after _ fun _ => .done ⟨rfl, rfl⟩

theorem push (h : Mirrors s s' q q') (payload : Payload) :
    Beside (Outcome.Mirrors s s') (q.push payload) (q'.push payload) := by
  have hgrow := h.grow
  obtain ⟨rfl, rfl⟩ := h
  refine .after _ fun need => ?_
  refine .after (q.cursors.slot? q.capacity need) fun slot => ?_
  cases slot with
  | some offset =>
    have ht : Mirrors q.reporting s' { q with cursors.tail := offset } { q.reportTo s' with cursors.tail := offset } :=
      ⟨rfl, rfl⟩
    exact (ht.appendAtTail need payload).bind fun r r' h => .done ⟨rfl, h, .nil _ _⟩
  | none =>
    have hm : (q.reportTo s').ceilingMet? need = q.ceilingMet? need := rfl
    simp only [hm]
    cases q.ceilingMet? need with
    | some ceiling => exact .done ⟨rfl, ⟨rfl, rfl⟩, .nil _ _⟩
    | none =>
      refine (hgrow need).bind fun grown grown' hg => (hg.queue.appendAtTail need payload).bind fun r r' h => ?_
      have ht : grown'.queue.cursors.tail = grown.queue.cursors.tail := by rw [hg.queue.eq_reportTo]; rfl
      exact .done ⟨congrArg Except.ok ht, h, hg.reports⟩

theorem pop (h : Mirrors s s' q q') : Beside (Outcome.Mirrors s s') q.pop q'.pop := by
  obtain ⟨rfl, rfl⟩ := h
  have hl : (q.reportTo s').locate (q.reportTo s').cursors.head = q.locate q.cursors.head := rfl
  rw [Queue.pop, Queue.pop, hl]
  cases q.locate q.cursors.head with
  | error refusal => exact .done ⟨rfl, ⟨rfl, rfl⟩, .nil _ _⟩
  | ok block =>
    exact .after _ fun cursors => .after _ fun _ => .after _ fun payload => .done ⟨rfl, ⟨rfl, rfl⟩, .nil _ _⟩

theorem popUpTo : ∀ (n : Nat) {q q' : Queue}, Mirrors s s' q q' →
    Beside (Outcome.Mirrors s s') (q.popUpTo n) (q'.popUpTo n)
  | 0, _, _, h => .done ⟨rfl, h, .nil _ _⟩
  | n + 1, q, q', h => by
    refine h.pop.bind fun x x' hx => ?_
    obtain ⟨reply, r, _⟩ := x
    obtain ⟨reply', r', _⟩ := x'
    have hr : Mirrors s s' r r' := hx.queue
    obtain rfl : reply' = reply := hx.reply_eq
    cases reply' with
    | error refusal => exact .done ⟨rfl, hr, .nil _ _⟩
    | ok payload =>
      refine (popUpTo n hr).bind fun x x' hx => .done ⟨?_, hx.queue, .nil _ _⟩
      exact congrArg (fun reply => (payload :: reply.1, reply.2)) hx.reply_eq

theorem drain (h : Mirrors s s' q q') : Beside (Outcome.Mirrors s s') q.drain q'.drain := by
  have hl : q'.len = q.len := by rw [h.eq_reportTo]; rfl
  rw [Queue.drain, Queue.drain, hl]
  refine (popUpTo q.len h).bind fun x x' hx => .done ⟨?_, hx.queue, .nil _ _⟩
  exact congrArg (fun reply => (reply.1, reply.2.getD .empty)) hx.reply_eq

/-! ## Requests -/

/-- What only looks at a queue is the same for both. -/
theorem look {α : Type} (h : Mirrors s s' q q') (seen : Except Fault α) (f : α → Reply) :
    Beside (Outcome.Mirrors s s') (do return q.unchanged (f (← seen))) (do return q'.unchanged (f (← seen))) :=
  .after _ fun _ => .done ⟨rfl, h, .nil _ _⟩

/-- A request that neither concerns the observer nor shows it comes to the same in both. -/
theorem ask {request : Request} (h : Mirrors s s' q q') (ho : request.observes = false)
    (hd : request ≠ .describe) : Beside (Outcome.Mirrors s s') (q.ask request) (q'.ask request) := by
  cases request with
  | push payload => exact (h.push payload).bind fun x x' hx => .done (hx.map _)
  | pop => exact h.pop.bind fun x x' hx => .done (hx.map _)
  | drain => exact h.drain.bind fun x x' hx => .done (hx.map _)
  | observe _ | unobserve => cases ho
  | describe => exact absurd rfl hd
  | reset | checkOffset _ | maxCapacity =>
    obtain ⟨rfl, rfl⟩ := h
    exact .done ⟨rfl, ⟨rfl, rfl⟩, .nil _ _⟩
  | peek | get _ | scan _ _ | tourPayloads _ | tourEntries _ | payloads =>
    -- What is looked at holds neither the verbose flag nor the observer, so both look at the same.
    obtain ⟨rfl, rfl⟩ := h
    exact look ⟨rfl, rfl⟩ _ _

/-- Setting or clearing the observer does nothing but that. -/
theorem ask_of_observes {request : Request} (h : Mirrors s s' q q') (ho : request.observes = true) :
    ∃ outcome t, q.ask request = .ok outcome ∧ Mirrors t s' outcome.queue q' ∧ t.verbose = s.verbose ∧
      outcome.reports = [] := by
  obtain ⟨rfl, rfl⟩ := h
  cases request with
  | observe tag => exact ⟨_, { q.reporting with observer := some tag }, rfl, ⟨rfl, rfl⟩, rfl, rfl⟩
  | unobserve => exact ⟨_, { q.reporting with observer := none }, rfl, ⟨rfl, rfl⟩, rfl, rfl⟩
  | _ => cases ho

end Mirrors
end Queue

/-! ## Runs -/

/-- One request of a run, with its outcome. -/
structure Exchange where
  request : Request
  outcome : Outcome Reply

/-- Requests that have been answered one after the other, and the fault that stopped the run, if one did. -/
structure Run where
  exchanges : List Exchange := []
  fault? : Option Fault := none

/-- The run that goes on with `run` after an exchange. -/
def Run.cons (exchange : Exchange) (run : Run) : Run := { run with exchanges := exchange :: run.exchanges }

/-- The run of a queue through a list of requests. -/
def Queue.run : Queue → List Request → Run
  | _, [] => {}
  | q, request :: requests =>
    match q.ask request with
    | .error fault => { fault? := some fault }
    | .ok outcome => (outcome.queue.run requests).cons { request, outcome }

theorem Queue.run_of_ok {q : Queue} {request : Request} {outcome : Outcome Reply} (h : q.ask request = .ok outcome)
    (requests : List Request) :
    q.run (request :: requests) = (outcome.queue.run requests).cons { request, outcome } := by rw [Queue.run, h]

theorem Queue.run_of_error {q : Queue} {request : Request} {fault : Fault} (h : q.ask request = .error fault)
    (requests : List Request) : q.run (request :: requests) = { fault? := some fault } := by rw [Queue.run, h]

namespace Run

/-- The exchanges of a run but for those that set or clear the observer. -/
def others (run : Run) : List Exchange := run.exchanges.filter (!·.request.observes)

/-- What a run has logged. -/
def log (run : Run) : List LogRecord :=
  run.exchanges.flatMap fun exchange => exchange.outcome.reports.filterMap Report.record?

end Run

/-- **The same exchange of two queues**: the same request, the same reply, and what can be seen of the queues and what
is in them is the same afterwards, but for where they report. Asked for its text, each queue shows itself. -/
structure Exchange.Agrees (exchange exchange' : Exchange) : Prop where
  request_eq : exchange'.request = exchange.request
  reply_eq : exchange.request ≠ .describe → exchange'.outcome.reply = exchange.outcome.reply
  text_eq : exchange.request = .describe → exchange.outcome.reply = .ok (.text exchange.outcome.queue.describe) ∧
    exchange'.outcome.reply = .ok (.text exchange'.outcome.queue.describe)
  queue_eq : exchange'.outcome.queue = exchange.outcome.queue.reportTo exchange'.outcome.queue.reporting
  snapshot_eq : exchange'.outcome.queue.snapshot = exchange.outcome.queue.snapshot

/-- **The same run but for what is observed**, of a queue that is verbose or not and of another one: the two stop at the
same request with the same fault or at no request, the same exchanges lead there, and the same growths are logged. -/
structure Run.Agrees (verbose verbose' : Bool) (run run' : Run) : Prop where
  fault_eq : run'.fault? = run.fault?
  others : List.Forall₂ Exchange.Agrees run.others run'.others
  log_eq : ∃ growths : List Growth, run.log = growths.map (·.record verbose) ∧
    run'.log = growths.map (·.record verbose')

section Runs

variable {s s' : Reporting} {verbose verbose' : Bool} {run run' : Run} {exchange exchange' : Exchange}

theorem Run.log_cons (exchange : Exchange) (run : Run) :
    (run.cons exchange).log = exchange.outcome.reports.filterMap Report.record? ++ run.log := List.flatMap_cons

theorem Run.others_cons_of_observes (ho : exchange.request.observes = true) : (run.cons exchange).others = run.others :=
  List.filter_cons_of_neg (by simp [ho])

theorem Run.others_cons (ho : exchange.request.observes = false) :
    (run.cons exchange).others = exchange :: run.others := List.filter_cons_of_pos (by simp [ho])

namespace Run.Agrees

/-- A silent exchange that concerns the observer makes no difference to the first run ... -/
theorem cons_left (h : Run.Agrees verbose verbose' run run') (ho : exchange.request.observes = true)
    (hr : exchange.outcome.reports = []) : Run.Agrees verbose verbose' (run.cons exchange) run' := by
  refine ⟨h.fault_eq, ?_, ?_⟩
  · rw [others_cons_of_observes ho]
    exact h.others
  · rw [log_cons, hr]
    exact h.log_eq

/-- ... and none to the second one. -/
theorem cons_right (h : Run.Agrees verbose verbose' run run') (ho : exchange'.request.observes = true)
    (hr : exchange'.outcome.reports = []) : Run.Agrees verbose verbose' run (run'.cons exchange') := by
  refine ⟨h.fault_eq, ?_, ?_⟩
  · rw [others_cons_of_observes ho]
    exact h.others
  · rw [log_cons, hr]
    exact h.log_eq

/-- The same exchange may come before both. -/
theorem cons (h : Run.Agrees s.verbose s'.verbose run run') (ho : exchange.request.observes = false)
    (hx : exchange.Agrees exchange') (hr : s.Echo s' exchange.outcome.reports exchange'.outcome.reports) :
    Run.Agrees s.verbose s'.verbose (run.cons exchange) (run'.cons exchange') := by
  have ho' : exchange'.request.observes = false := by rw [hx.request_eq, ho]
  refine ⟨h.fault_eq, ?_, ?_⟩
  · rw [others_cons ho, others_cons ho']
    exact .cons hx h.others
  · obtain ⟨front, hf, hf'⟩ := hr
    obtain ⟨back, hb, hb'⟩ := h.log_eq
    refine ⟨front ++ back, ?_, ?_⟩
    · rw [log_cons, hf, hb, Reporting.filterMap_record?, List.map_append]
    · rw [log_cons, hf', hb', Reporting.filterMap_record?, List.map_append]

/-- The logs of both runs show the same capacities, at the same places. -/
theorem brief_log_eq (h : Run.Agrees verbose verbose' run run') :
    run'.log.map LogRecord.brief = run.log.map LogRecord.brief := by
  obtain ⟨growths, hl, hl'⟩ := h.log_eq
  rw [hl, hl', List.map_map, List.map_map]
  exact List.map_congr_left fun growth _ => by simp [Growth.brief_record]

end Run.Agrees

/-- Lists of requests that differ only in requests that set or clear the observer. -/
inductive SameOthers : List Request → List Request → Prop
  | nil : SameOthers [] []
  | left {request : Request} {requests requests' : List Request} (ho : request.observes = true)
      (h : SameOthers requests requests') : SameOthers (request :: requests) requests'
  | right {request : Request} {requests requests' : List Request} (ho : request.observes = true)
      (h : SameOthers requests requests') : SameOthers requests (request :: requests')
  | both {request : Request} {requests requests' : List Request} (ho : request.observes = false)
      (h : SameOthers requests requests') : SameOthers (request :: requests) (request :: requests')

theorem SameOthers.append_right {requests back : List Request} (h : SameOthers requests back) :
    ∀ {front : List Request}, (∀ request ∈ front, request.observes = true) → SameOthers requests (front ++ back)
  | [], _ => h
  | _ :: _, ho => .right (ho _ List.mem_cons_self) (h.append_right fun request hm => ho request (.tail _ hm))

theorem SameOthers.of_filter_eq : ∀ {requests requests' : List Request},
    requests'.filter (!·.observes) = requests.filter (!·.observes) → SameOthers requests requests'
  | [], requests', h => by
    rw [← List.append_nil requests']
    refine SameOthers.nil.append_right fun request hm => ?_
    simpa using List.filter_eq_nil_iff.mp h request hm
  | request :: requests, requests', h => by
    cases ho : request.observes with
    | true => exact .left ho (of_filter_eq (by simpa [ho] using h))
    | false =>
      rw [List.filter_cons_of_pos (by simp [ho]), List.filter_eq_cons_iff] at h
      obtain ⟨front, back, rfl, hf, _, hb⟩ := h
      exact (SameOthers.both ho (of_filter_eq hb)).append_right fun x hm => by simpa using hf x hm

end Runs

namespace Queue

variable {q q' : Queue} {s s' : Reporting}

/-- A request that does not concern the observer is the same exchange for both. -/
theorem Mirrors.exchange {request : Request} (h : Mirrors s s' q q') (ho : request.observes = false) :
    Beside (fun x x' => Exchange.Agrees ⟨request, x⟩ ⟨request, x'⟩ ∧ Mirrors s s' x.queue x'.queue ∧
      s.Echo s' x.reports x'.reports) (q.ask request) (q'.ask request) := by
  by_cases hd : request = .describe
  · subst hd
    exact .done ⟨⟨rfl, fun hn => absurd rfl hn, fun _ => ⟨rfl, rfl⟩, h.queue_eq, h.snapshot_eq⟩, h, .nil _ _⟩
  · refine (h.ask ho hd).imp fun x x' hx => ⟨?_, hx.queue, hx.reports⟩
    exact ⟨rfl, fun _ => hx.reply_eq, fun he => absurd he hd, hx.queue.queue_eq, hx.queue.snapshot_eq⟩

/-- **Mirrored queues go through the same run**, whatever else each of them is asked about its observer. -/
theorem Mirrors.run {requests requests' : List Request} (h : Mirrors s s' q q') (hr : SameOthers requests requests') :
    Run.Agrees s.verbose s'.verbose (q.run requests) (q'.run requests') := by
  -- The queues and where they report change along the run; the verbose flags, and with them the logs, do not.
  induction hr generalizing q q' s s' with
  | nil => exact ⟨rfl, .nil, [], rfl, rfl⟩
  | left ho _ ih =>
    obtain ⟨outcome, t, ha, ht, hv, hn⟩ := h.ask_of_observes ho
    rw [run_of_ok ha, ← hv]
    exact (ih ht).cons_left ho hn
  | right ho _ ih =>
    obtain ⟨outcome, t, ha, ht, hv, hn⟩ := h.symm.ask_of_observes ho
    rw [run_of_ok ha, ← hv]
    exact (ih ht.symm).cons_right ho hn
  | both ho _ ih =>
    have hx := h.exchange ho
    generalize ha : q.ask _ = asked at hx
    generalize ha' : q'.ask _ = asked' at hx
    cases hx with
    | stopped fault =>
      rw [run_of_error ha, run_of_error ha']
      exact ⟨rfl, .nil, [], rfl, rfl⟩
    | done hx =>
      obtain ⟨hx, hq, hr⟩ := hx
      rw [run_of_ok ha, run_of_ok ha']
      exact (ih hq).cons ho hx hr

/-- Whether and why a queue is created does not depend on how much it reports, and nor does the queue. -/
theorem create_verbose (capacity maxCapacity : Nat) (verbose verbose' : Bool) :
    create capacity maxCapacity verbose' =
      (fun made => made.map (·.reportTo { verbose := verbose' })) <$> create capacity maxCapacity verbose := by
  unfold create
  split
  · rfl
  split
  · rfl
  · simp only [map_bind, map_pure]
    rfl

/-- **Observation has no effect.** Take two runs that differ only in the verbose flag and in requests that set or clear
the observer, wherever these are put. Either both queues are created, in all respects but the reporting the same, the
runs agree, and the logs show the same growths in brief; or neither is created, for the same reason. -/
theorem observation_has_no_effect (capacity maxCapacity : Nat) (verbose verbose' : Bool)
    {requests requests' : List Request} (h : requests'.filter (!·.observes) = requests.filter (!·.observes)) :
    (∃ q q', create capacity maxCapacity verbose = .ok (.ok q) ∧ create capacity maxCapacity verbose' = .ok (.ok q') ∧
      q' = q.reportTo q'.reporting ∧ Run.Agrees verbose verbose' (q.run requests) (q'.run requests') ∧
      (q'.run requests').log.map LogRecord.brief = (q.run requests).log.map LogRecord.brief) ∨
    create capacity maxCapacity verbose' = create capacity maxCapacity verbose ∧
      ¬ ∃ q, create capacity maxCapacity verbose = .ok (.ok q) := by
  have hv := create_verbose capacity maxCapacity verbose verbose'
  generalize hc : create capacity maxCapacity verbose = made at hv ⊢
  match made with
  | .error fault => exact .inr ⟨hv, by simp⟩
  | .ok (.error refusal) => exact .inr ⟨hv, by simp⟩
  | .ok (.ok q) =>
    obtain ⟨_, _, _, _, _, hr⟩ := fields_of_create hc
    have hq : Mirrors { verbose } { verbose := verbose' } q (q.reportTo { verbose := verbose' }) := ⟨rfl, hr⟩
    have hrun := hq.run (.of_filter_eq h)
    exact .inl ⟨q, _, rfl, hv, hq.queue_eq, hrun, hrun.brief_log_eq⟩

/-- A run that wraps around and grows, quietly, and the same one of a verbose queue with an observer that comes and
goes. -/
theorem observation_has_no_effect_growing : ∃ q q' : Queue, create 8 0 false = .ok (.ok q) ∧
    create 8 0 true = .ok (.ok q') ∧
    Run.Agrees false true (q.run [.push [1, 2], .push [3, 4], .pop, .push [5], .push [6, 7, 8], .payloads])
      (q'.run [.observe 1, .push [1, 2], .push [3, 4], .pop, .observe 2, .push [5], .push [6, 7, 8], .unobserve,
        .payloads]) ∧
    (q.run [.push [1, 2], .push [3, 4], .pop, .push [5], .push [6, 7, 8], .payloads]).log =
      [⟨.trace, "Allocated new queue", [.previousCapacity 8, .capacity 16]⟩] := by
  have hq : create 8 0 false = .ok (.ok { buffer := ⟨Array.replicate 8 0, by decide⟩ }) := by cbv
  rcases @observation_has_no_effect 8 0 false true
    [.push [1, 2], .push [3, 4], .pop, .push [5], .push [6, 7, 8], .payloads]
    [.observe 1, .push [1, 2], .push [3, 4], .pop, .observe 2, .push [5], .push [6, 7, 8], .unobserve, .payloads]
    (by decide) with ⟨q, q', hc, hc', _, hrun, _⟩ | ⟨_, hn⟩
  · refine ⟨q, q', hc, hc', hrun, ?_⟩
    cases hq.symm.trans hc
    cbv
  · exact absurd ⟨_, hq⟩ hn

end Queue
end BlockRing
