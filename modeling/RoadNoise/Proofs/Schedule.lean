/-
# RoadNoise.Proofs.Schedule -- workers in any order

Workers share two flags and nothing else.  A batch moves by the events of its workers,
and by a worker that starts a receiver though a flag is up: what a worker sees of a flag
may be old.  What a receiver comes to is read after the last move, so it does not matter
when a worker leaves it behind, only when it reports it or raises a flag.  Nobody says in
which order they move, so `Runner.Ends` is everything that a batch can come to, and a run
of one worker is one of its cases (`Runner.ends_run`).

However the workers move, a receiver that was evaluated has the outcome it has by itself,
a raised abort flag has a fatal fault behind it, and who was skipped was skipped for a
flag (`Progress.Accurate`).  A batch with a fatal fault has no report, so in a report the
cancel flag is the only reason for skipping.
-/
import RoadNoise.Proofs.Reported

set_option autoImplicit false

namespace RoadNoise

variable {α : Type} [Scalar α]

namespace Runner

/-! ## Moves -/

section

variable (r : Runner α) (sources : List (PointSource α)) (receivers : Array (Receiver α))

/-- What can happen next. -/
inductive Moves : Progress α → Progress α → Prop
  | event (p : Progress α) (e : Event) : Moves p (r.event sources receivers p e)
  /-- A worker starts a receiver whatever the flags are. -/
  | overlook {p : Progress α} {place : Nat} (waits : p.fates[place]? = some .waiting) :
      Moves p { p with fates := p.fates.setIfInBounds place .started }

/-- What can have happened. -/
def Reached : Progress α → Prop :=
  Relation.ReflTransGen (r.Moves sources receivers) (begin receivers)

/-- The batch after the receiver at a place is evaluated. -/
def settle (p : Progress α) (place : Nat) (receiver : Receiver α) : Progress α :=
  let outcome := r.evaluate sources receiver
  { p with
    aborted := p.aborted || raisesAbort outcome
    fates := p.fates.setIfInBounds place (.evaluated outcome)
    announced := if outcome.isOk then receiver.id :: p.announced else p.announced }

end

variable {r : Runner α} {sources : List (PointSource α)} {receivers : Array (Receiver α)}
  {p q : Progress α}

/-- Everything that a move can do. -/
theorem Moves.cases (moves : r.Moves sources receivers p q) :
    q = p ∨ q = { p with cancelled := true } ∨
    (∃ place fate, p.fates[place]? = some .waiting ∧
      (fate = .started ∨ fate = .skipped ∧ (p.cancelled = true ∨ p.aborted = true)) ∧
      q = { p with fates := p.fates.setIfInBounds place fate }) ∨
    ∃ place receiver, p.fates[place]? = some .started ∧ receivers[place]? = some receiver ∧
      q = r.settle sources p place receiver := by
  cases moves with
  | overlook waits => exact .inr (.inr (.inl ⟨_, _, waits, .inl rfl, rfl⟩))
  | event e =>
      cases e with
      | cancel => exact .inr (.inl rfl)
      | start place =>
          rw [Runner.event]
          split
          · rename_i waits
            refine .inr (.inr (.inl ⟨place, _, waits, ?_, rfl⟩))
            split_ifs with raised
            · exact .inr ⟨rfl, by simpa using raised⟩
            · exact .inl rfl
          · exact .inl rfl
      | finish place =>
          rw [Runner.event]
          split
          · rename_i starts isAt
            exact .inr (.inr (.inr ⟨place, _, starts, isAt, rfl⟩))
          · exact .inl rfl

end Runner

/-! ## What moves keep -/

theorem getElem?_set_of_some {β : Type} {a : Array β} {place : Nat} {old new : β}
    (isAt : a[place]? = some old) (i : Nat) :
    (a.setIfInBounds place new)[i]? = if i = place then some new else a[i]? := by
  obtain ⟨bound, -⟩ := Array.getElem?_eq_some_iff.1 isAt
  simp [Array.getElem?_setIfInBounds, bound, eq_comm]

/-- What is said of receivers agrees with what they are by themselves. -/
structure Progress.Accurate (r : Runner α) (sources : List (PointSource α))
    (receivers : Array (Receiver α)) (p : Progress α) : Prop where
  size : p.fates.size = receivers.size
  outcome : ∀ (place : Nat) (receiver : Receiver α) (outcome : Outcome α (ReceiverResult α)),
    receivers[place]? = some receiver → p.fates[place]? = some (.evaluated outcome) →
      outcome = r.evaluate sources receiver
  aborted : p.aborted = true → ∃ (place : Nat) (fault : Fault α),
    p.fates[place]? = some (.evaluated (.error fault)) ∧ fault.isFatal = true
  skipped : ∀ place : Nat, p.fates[place]? = some .skipped →
    p.cancelled = true ∨ p.aborted = true
  once : p.announced.Nodup
  announced : ∀ id : Nat, id ∈ p.announced ↔
    ∃ (place : Nat) (receiver : Receiver α) (result : ReceiverResult α),
      receivers[place]? = some receiver ∧ receiver.id = id ∧
        p.fates[place]? = some (.evaluated (.ok result))

namespace Progress.Accurate

variable {r : Runner α} {sources : List (PointSource α)} {receivers : Array (Receiver α)}
  {p q : Progress α}

theorem begin : (Runner.begin receivers).Accurate r sources receivers where
  size := by simp [Runner.begin]
  outcome := by simp [Runner.begin]
  aborted := by simp [Runner.begin]
  skipped := by simp [Runner.begin]
  once := List.nodup_nil
  announced := by simp [Runner.begin]

theorem cancel (accurate : p.Accurate r sources receivers) :
    { p with cancelled := true }.Accurate r sources receivers :=
  { accurate with skipped := fun _ _ => .inl rfl }

/-- A receiver that waited is started, or skipped for a flag. -/
theorem take {place : Nat} {fate : Fate α} (accurate : p.Accurate r sources receivers)
    (waits : p.fates[place]? = some .waiting)
    (next : fate = .started ∨ fate = .skipped ∧ (p.cancelled = true ∨ p.aborted = true)) :
    { p with fates := p.fates.setIfInBounds place fate }.Accurate r sources receivers := by
  have evaluated (i : Nat) (outcome : Outcome α (ReceiverResult α)) :
      (p.fates.setIfInBounds place fate)[i]? = some (.evaluated outcome) ↔
        p.fates[i]? = some (.evaluated outcome) := by
    rw [getElem?_set_of_some waits]
    split_ifs with same
    · subst same
      rcases next with rfl | ⟨rfl, -⟩ <;> simp [waits]
    · rfl
  refine { accurate with
    size := by simpa using accurate.size
    outcome := ?_
    aborted := ?_
    skipped := ?_
    announced := ?_ }
  · simpa only [evaluated] using accurate.outcome
  · simpa only [evaluated] using accurate.aborted
  · intro i skipped
    rw [getElem?_set_of_some waits] at skipped
    split_ifs at skipped with same
    · rcases next with rfl | ⟨-, raised⟩
      · simp at skipped
      · exact raised
    · exact accurate.skipped i skipped
  · simpa only [evaluated] using accurate.announced

theorem evaluated_settle_iff {place : Nat} {receiver : Receiver α}
    (starts : p.fates[place]? = some .started) {i : Nat}
    {outcome : Outcome α (ReceiverResult α)} :
    (r.settle sources p place receiver).fates[i]? = some (.evaluated outcome) ↔
      (i = place ∧ outcome = r.evaluate sources receiver) ∨
        p.fates[i]? = some (.evaluated outcome) := by
  rw [Runner.settle, getElem?_set_of_some starts]
  split_ifs with same
  · simp [same, starts, eq_comm]
  · simp [same]

/-- The identifier of a receiver is new as long as it is not evaluated, for whoever has the
identifier is at its place. -/
theorem id_not_mem_announced {place : Nat} {receiver : Receiver α}
    (distinct : Distinct receivers.toList) (accurate : p.Accurate r sources receivers)
    (starts : p.fates[place]? = some .started) (isAt : receivers[place]? = some receiver) :
    receiver.id ∉ p.announced := by
  intro announced
  obtain ⟨i, other, result, isOther, same, isResult⟩ := (accurate.announced _).1 announced
  obtain rfl := distinct.place_eq (by simpa using isOther) (by simpa using isAt) same
  simp [starts] at isResult

theorem mem_announced_settle {place id : Nat} {receiver : Receiver α} :
    id ∈ (r.settle sources p place receiver).announced ↔
      (id = receiver.id ∧ ∃ result, r.evaluate sources receiver = .ok result) ∨
        id ∈ p.announced := by
  cases outcome : r.evaluate sources receiver with
  | ok result => simp [Runner.settle, outcome, Except.isOk, Except.toBool]
  | error fault => simp [Runner.settle, outcome, Except.isOk, Except.toBool]

/-- A receiver that was started is evaluated. -/
theorem settle {place : Nat} {receiver : Receiver α} (distinct : Distinct receivers.toList)
    (accurate : p.Accurate r sources receivers) (starts : p.fates[place]? = some .started)
    (isAt : receivers[place]? = some receiver) :
    (r.settle sources p place receiver).Accurate r sources receivers := by
  refine
    { size := by simpa [Runner.settle] using accurate.size
      outcome := ?_
      aborted := ?_
      skipped := ?_
      once := ?_
      announced := ?_ }
  · intro i other outcome isOther isOutcome
    rcases (evaluated_settle_iff starts).1 isOutcome with ⟨rfl, rfl⟩ | earlier
    · rw [Option.some.inj (isAt.symm.trans isOther)]
    · exact accurate.outcome i other outcome isOther earlier
  · intro raised
    obtain before | now : p.aborted = true ∨
        Runner.raisesAbort (r.evaluate sources receiver) = true := by
      simpa [Runner.settle] using raised
    · obtain ⟨i, fault, failed, fatal⟩ := accurate.aborted before
      exact ⟨i, fault, (evaluated_settle_iff starts).2 (.inr failed), fatal⟩
    · cases outcome : r.evaluate sources receiver with
      | ok result => simp [outcome, Runner.raisesAbort] at now
      | error fault =>
          rw [outcome] at now
          exact ⟨place, fault, (evaluated_settle_iff starts).2 (.inl ⟨rfl, outcome.symm⟩), now⟩
  · intro i skipped
    rw [Runner.settle, getElem?_set_of_some starts] at skipped
    split_ifs at skipped
    · simp at skipped
    · refine (accurate.skipped i skipped).imp_right fun raised => ?_
      simp [Runner.settle, raised]
  · have unannounced := accurate.id_not_mem_announced distinct starts isAt
    simp only [Runner.settle]
    split_ifs
    · exact List.nodup_cons.2 ⟨unannounced, accurate.once⟩
    · exact accurate.once
  · intro id
    rw [mem_announced_settle, accurate.announced]
    simp only [evaluated_settle_iff starts]
    constructor
    · rintro (⟨rfl, result, isResult⟩ | ⟨i, other, result, isOther, same, earlier⟩)
      · exact ⟨place, receiver, result, isAt, rfl, .inl ⟨rfl, isResult.symm⟩⟩
      · exact ⟨i, other, result, isOther, same, .inr earlier⟩
    · rintro ⟨i, other, result, isOther, rfl, ⟨rfl, isResult⟩ | earlier⟩
      · obtain rfl := Option.some.inj (isAt.symm.trans isOther)
        exact .inl ⟨rfl, result, isResult.symm⟩
      · exact .inr ⟨i, other, result, isOther, rfl, earlier⟩

theorem step (distinct : Distinct receivers.toList) (accurate : p.Accurate r sources receivers)
    (moves : r.Moves sources receivers p q) : q.Accurate r sources receivers := by
  obtain rfl | rfl | ⟨place, fate, waits, next, rfl⟩ | ⟨place, receiver, starts, isAt, rfl⟩ :=
    moves.cases
  · exact accurate
  · exact accurate.cancel
  · exact accurate.take waits next
  · exact accurate.settle distinct starts isAt

/-- Whatever the order of the moves, what is said stays accurate. -/
theorem of_reached (distinct : Distinct receivers.toList)
    (reached : r.Reached sources receivers p) : p.Accurate r sources receivers := by
  induction reached with
  | refl => exact .begin
  | tail _ moves accurate => exact accurate.step distinct moves

/-- Every outcome is that of some receiver. -/
theorem exists_receiver {place : Nat} {outcome : Outcome α (ReceiverResult α)}
    (accurate : p.Accurate r sources receivers)
    (evaluated : p.fates[place]? = some (.evaluated outcome)) :
    ∃ receiver ∈ receivers, outcome = r.evaluate sources receiver := by
  obtain ⟨bound, -⟩ := Array.getElem?_eq_some_iff.1 evaluated
  have isAt := Array.getElem?_eq_getElem (accurate.size ▸ bound)
  exact ⟨_, Array.mem_of_getElem? isAt, accurate.outcome place _ outcome isAt evaluated⟩

end Progress.Accurate

/-! ## Ends -/

namespace Runner

/-- What a batch can come to, with the progress at its end. -/
inductive Ends (r : Runner α) (sources : List (PointSource α)) (receivers : List (Receiver α)) :
    Progress α → Outcome α (Report α) → Prop
  | refused {fault : Fault α} (refuses : r.accept sources receivers = .error fault) :
      Ends r sources receivers (begin receivers.toArray) (.error fault)
  | finished {p : Progress α} (accepts : r.accept sources receivers = .ok ())
      (reached : r.Reached sources receivers.toArray p) (ended : p.Over) :
      Ends r sources receivers p (report receivers p.fates.toList)

variable {r : Runner α} {sources : List (PointSource α)} {receivers : List (Receiver α)}
  {p : Progress α}

/-! ## One worker -/

theorem reached_play {receivers : Array (Receiver α)} (reached : r.Reached sources receivers p)
    (events : List Event) : r.Reached sources receivers (r.play sources receivers p events) := by
  induction events generalizing p with
  | nil => exact reached
  | cons e events ih => exact ih (reached.tail (.event p e))

section

variable (r : Runner α) (sources : List (PointSource α)) (receivers : Array (Receiver α))
  (limit : Option Nat)

/-- The batch after a look at the limit. -/
def cancelAtLimit (p : Progress α) : Progress α :=
  if limit = some p.announced.length then r.event sources receivers p .cancel else p

/-- The batch after the worker is done with a place. -/
def turn (p : Progress α) (place : Nat) : Progress α :=
  r.cancelAtLimit sources receivers limit (r.play sources receivers p [.start place, .finish place])

theorem playInOrder_eq : r.playInOrder sources receivers limit
    = (List.range receivers.size).foldl (r.turn sources receivers limit)
        (r.cancelAtLimit sources receivers limit (begin receivers)) := rfl

@[simp] theorem fates_cancelAtLimit (p : Progress α) :
    (r.cancelAtLimit sources receivers limit p).fates = p.fates := by
  unfold cancelAtLimit
  split_ifs <;> rfl

variable {r sources receivers limit}

theorem reached_cancelAtLimit (reached : r.Reached sources receivers p) :
    r.Reached sources receivers (r.cancelAtLimit sources receivers limit p) := by
  unfold cancelAtLimit
  split_ifs
  · exact reached.tail (.event p .cancel)
  · exact reached

variable (r sources receivers limit)

/-- A turn settles the receiver at its place, and no other. -/
theorem fates_turn {place : Nat} {receiver : Receiver α} (waits : p.fates[place]? = some .waiting)
    (isAt : receivers[place]? = some receiver) :
    ∃ fate, (fate = .skipped ∨ ∃ outcome, fate = .evaluated outcome) ∧
      (r.turn sources receivers limit p place).fates = p.fates.setIfInBounds place fate := by
  rw [turn, fates_cancelAtLimit]
  -- what the receiver is after the first of the two events decides about the second
  have started (new : Fate α) : (p.fates.setIfInBounds place new)[place]? = some new := by
    rw [getElem?_set_of_some waits, if_pos rfl]
  by_cases raised : (p.cancelled || p.aborted) = true
  · refine ⟨.skipped, .inl rfl, ?_⟩
    simp only [play, List.foldl_cons, List.foldl_nil, event, waits, raised, if_true, started]
  · refine ⟨.evaluated (r.evaluate sources receiver), .inr ⟨_, rfl⟩, ?_⟩
    simp only [play, List.foldl_cons, List.foldl_nil, event, waits, raised, if_false, started, isAt,
      Bool.false_eq_true, Array.setIfInBounds_setIfInBounds]

/-- After some turns the receivers that had one are settled, and the others wait. -/
theorem foldl_turn {n : Nat} (bound : n ≤ receivers.size) :
    let p := (List.range n).foldl (r.turn sources receivers limit)
      (r.cancelAtLimit sources receivers limit (begin receivers))
    r.Reached sources receivers p ∧
      (∀ i fate, i < n → p.fates[i]? = some fate →
        fate = .skipped ∨ ∃ outcome, fate = .evaluated outcome) ∧
      ∀ i, n ≤ i → i < receivers.size → p.fates[i]? = some .waiting := by
  induction n with
  | zero =>
      refine ⟨reached_cancelAtLimit .refl, by simp, fun i _ below => ?_⟩
      simp [begin, below]
  | succ n ih =>
      obtain ⟨reached, settled, waiting⟩ := ih (by omega)
      rw [List.range_succ, List.foldl_append, List.foldl_cons, List.foldl_nil]
      generalize (List.range n).foldl (r.turn sources receivers limit)
        (r.cancelAtLimit sources receivers limit (begin receivers)) = p at *
      have waits := waiting n le_rfl bound
      obtain ⟨fate, isSettled, fates⟩ := fates_turn r sources receivers limit waits
        (Array.getElem?_eq_getElem bound)
      refine ⟨reached_cancelAtLimit (reached_play reached _), ?_, ?_⟩
      · intro i found below isFate
        rw [fates, getElem?_set_of_some waits] at isFate
        split_ifs at isFate with same
        · obtain rfl := Option.some.inj isFate
          exact isSettled
        · exact settled i found (by omega) isFate
      · intro i above below
        rw [fates, getElem?_set_of_some waits, if_neg (by omega)]
        exact waiting i (by omega) below

end

/-- A run of one worker is a way to the end. -/
theorem ends_run (r : Runner α) (sources : List (PointSource α)) (receivers : List (Receiver α))
    (limit : Option Nat) :
    ∃ p, r.Ends sources receivers p (r.run sources receivers limit) := by
  have run_eq : r.run sources receivers limit = r.accept sources receivers >>= fun _ =>
      report receivers (r.playInOrder sources receivers.toArray limit).fates.toList := by
    rw [run, accept, bind_assoc]
  rw [run_eq]
  cases accepts : r.accept sources receivers with
  | error fault => exact ⟨_, .refused accepts⟩
  | ok u =>
      obtain ⟨reached, settled, -⟩ := foldl_turn r sources receivers.toArray limit le_rfl
      rw [← playInOrder_eq] at reached settled
      have accurate := Progress.Accurate.of_reached (accept_eq_ok_iff.1 accepts).2 reached
      refine ⟨_, .finished accepts reached fun place fate isFate => ?_⟩
      obtain ⟨bound, -⟩ := Array.getElem?_eq_some_iff.1 isFate
      exact settled place fate (accurate.size ▸ bound) isFate

end Runner

/-! ## Reports -/

/-- The report tells of every receiver what became of it, and nothing else. -/
structure Report.Faithful (r : Runner α) (sources : List (PointSource α))
    (receivers : List (Receiver α)) (p : Progress α) (report : Report α) : Prop where
  results_ascend : (report.results.map Prod.fst).Pairwise (· < ·)
  failures_ascend : (report.failures.map Prod.fst).Pairwise (· < ·)
  disjoint : (report.results.map Prod.fst).Disjoint (report.failures.map Prod.fst)
  known : ∀ id, id ∈ report.results.map Prod.fst ∨ id ∈ report.failures.map Prod.fst →
    id ∈ receivers.map Receiver.id
  /-- A result is that of the receiver by itself. -/
  results : ∀ receiver ∈ receivers, ∀ result, (receiver.id, result) ∈ report.results →
    r.evaluate sources receiver = .ok result ∧ result.id = receiver.id
  failures : ∀ receiver ∈ receivers, ∀ fault, (receiver.id, fault) ∈ report.failures →
    r.evaluate sources receiver = .error fault
  missing : ∀ (place : Nat) (receiver : Receiver α), receivers[place]? = some receiver →
    (receiver.id ∉ report.results.map Prod.fst ∧ receiver.id ∉ report.failures.map Prod.fst ↔
      p.fates[place]? = some .skipped)
  cancelled_iff : report.cancelled = true ↔ ∃ place : Nat, p.fates[place]? = some .skipped
  /-- Receivers were skipped for the cancel flag. -/
  cancelled : report.cancelled = true → p.cancelled = true
  announced : p.announced.Perm (report.results.map Prod.fst)

namespace Runner

variable {r : Runner α} {sources : List (PointSource α)} {receivers : List (Receiver α)}
  {p : Progress α}

theorem id_of_evaluate {receiver : Receiver α} {result : ReceiverResult α}
    (evaluates : r.evaluate sources receiver = .ok result) : result.id = receiver.id := by
  obtain ⟨contributions, -, aggregates⟩ := bind_eq_ok_iff.1 evaluates
  obtain ⟨spectrum, -, made⟩ := bind_eq_ok_iff.1 aggregates
  obtain rfl := Except.ok.inj made
  rfl

theorem announced_perm (distinct : Distinct receivers)
    (accurate : p.Accurate r sources receivers.toArray) :
    p.announced.Perm ((Report.table Fate.result? receivers p.fates.toList).map Prod.fst) := by
  refine (List.perm_ext_iff_of_nodup accurate.once
    (Report.pairwise_lt_keys_table distinct).nodup).2 fun id => ?_
  rw [accurate.announced, Report.mem_keys_table]
  simp only [Report.mem_results, Array.getElem?_toList, List.getElem?_toArray]
  constructor
  · rintro ⟨place, receiver, result, told⟩
    exact ⟨result, place, receiver, told⟩
  · rintro ⟨result, place, receiver, told⟩
    exact ⟨place, receiver, result, told⟩

/-- A report that is made is faithful. -/
theorem faithful_of_report (distinct : Distinct receivers)
    (accurate : p.Accurate r sources receivers.toArray) (ended : p.Over) {made : Report α}
    (reports : report receivers p.fates.toList = .ok made) :
    made.Faithful r sources receivers p := by
  have outcome {place : Nat} {receiver : Receiver α} {outcome : Outcome α (ReceiverResult α)}
      (isAt : receivers[place]? = some receiver)
      (evaluated : p.fates.toList[place]? = some (.evaluated outcome)) :
      r.evaluate sources receiver = outcome :=
    (accurate.outcome place receiver outcome (by simpa using isAt) (by simpa using evaluated)).symm
  have skips : p.fates.toList.any Fate.isSkipped = true ↔
      ∃ place : Nat, p.fates[place]? = some .skipped := by
    simp only [List.any_eq_true, Fate.isSkipped_iff, exists_eq_right, List.mem_iff_getElem?,
      Array.getElem?_toList]
  obtain ⟨harmless, rfl⟩ := report_eq_ok_iff.1 reports
  refine
    { results_ascend := Report.pairwise_lt_keys_table distinct
      failures_ascend := Report.pairwise_lt_keys_table distinct
      disjoint := Report.disjoint_tables distinct
      known := fun id told => told.elim (Report.keys_table_subset ·) (Report.keys_table_subset ·)
      results := ?_
      failures := ?_
      missing := fun place receiver =>
        Report.missing_iff distinct (by simpa using accurate.size) ended
      cancelled_iff := skips
      cancelled := ?_
      announced := announced_perm distinct accurate }
  · intro receiver isReceiver result isResult
    obtain ⟨place, isAt⟩ := List.mem_iff_getElem?.1 isReceiver
    have evaluates := outcome isAt ((Report.mem_results_at distinct isAt).1 isResult)
    exact ⟨evaluates, id_of_evaluate evaluates⟩
  · intro receiver isReceiver fault isFault
    obtain ⟨place, isAt⟩ := List.mem_iff_getElem?.1 isReceiver
    exact outcome isAt ((Report.mem_failures_at distinct isAt).1 isFault)
  · -- a raised abort flag would have a fatal fault behind it, and there would be no report
    intro isSkipped
    obtain ⟨place, skipped⟩ := skips.1 isSkipped
    refine (accurate.skipped place skipped).resolve_right fun raised => ?_
    obtain ⟨i, fault, isFault, fatal⟩ := accurate.aborted raised
    exact harmless fault ⟨by simpa using Array.mem_of_getElem? isFault, fatal⟩

/-- However the workers went, a report that is given is faithful, and there is none but the
fault if the fault of some receiver is fatal. -/
theorem Ends.faithful {answer : Outcome α (Report α)} (ends : r.Ends sources receivers p answer) :
    (∀ made, answer = .ok made → made.Faithful r sources receivers p) ∧
      ∀ fault, Fatal p.fates.toList fault →
        ∃ raised, answer = .error raised ∧ Fatal p.fates.toList raised ∧
          ∃ receiver ∈ receivers, r.evaluate sources receiver = .error raised := by
  cases ends with
  | refused refuses =>
      refine ⟨by simp, fun fault fatal => ?_⟩
      simp [Fatal, begin] at fatal
  | finished accepts reached ended =>
      have distinct := (accept_eq_ok_iff.1 accepts).2
      have accurate := Progress.Accurate.of_reached distinct reached
      refine ⟨fun made => faithful_of_report distinct accurate ended, fun fault fatal => ?_⟩
      cases found : fatalFault? p.fates.toList with
      | none => exact absurd fatal (fatalFault?_eq_none_iff.1 found fault)
      | some raised =>
          have fatal := fatal_of_fatalFault? found
          obtain ⟨place, isFate⟩ := List.mem_iff_getElem?.1 fatal.1
          obtain ⟨receiver, isReceiver, failed⟩ := accurate.exists_receiver (by simpa using isFate)
          exact ⟨raised, report_of_fatalFault? found, fatal, receiver, by simpa using isReceiver,
            failed.symm⟩

end Runner

/-! ## A batch of three -/

/-- A receiver apart from the source, one at its place, and one more. -/
noncomputable def trio : List (Receiver ℝ) := [⟨7, ⟨1, 0, 1⟩⟩, ⟨3, ⟨0, 0, 1⟩⟩, ⟨5, ⟨0, 1, 1⟩⟩]

/-- Two workers take a receiver each, and the flag is raised before they are done. -/
def interrupted : List Event := [.start 0, .start 1, .finish 1, .cancel, .start 2, .finish 0]

theorem trio_faithful : ∃ r p made,
    Runner.ofScene Settings.standard (.ok Draft.empty.finish) = .ok r ∧
      r.Ends [hum] trio p (.ok made) ∧ made.Faithful r [hum] trio p ∧
        made.results.map Prod.fst = [7] ∧ made.failures = [(3, coincident)] ∧
          made.cancelled = true := by
  obtain ⟨r, built, sound, settings⟩ := exists_runner .empty
  have serves : hum.spectrum.Serves r.settings.bands := by
    rw [settings]
    exact hum_serves
  have apart : r.evaluate [hum] ⟨7, ⟨1, 0, 1⟩⟩ = .ok (r.received [hum] ⟨7, ⟨1, 0, 1⟩⟩) := by
    have far : hum.position.distance ⟨1, 0, 1⟩ = 1 := by simp [hum, Point.distance_eq]
    refine (Runner.evaluate_eq_ok_iff sound).2 ⟨List.forall_mem_singleton.2 ?_, rfl⟩
    exact hum_audible (by rw [settings]; rfl) (Scalar.eps_lt_one.le.trans_eq far.symm)
  have near : r.evaluate [hum] ⟨3, ⟨0, 0, 1⟩⟩ = .error coincident := by
    have together : hum.position.distance ⟨0, 0, 1⟩ = 0 := by simp [hum, Point.distance_eq]
    refine (Runner.evaluate_eq_error_iff sound (by simpa using serves)).2
      ⟨⟨hum, List.mem_singleton_self hum, ?_, ?_⟩, rfl⟩
    · simp [Runner.InRange, together, settings, Settings.standard]
    · rw [together]
      exact Scalar.eps_pos
  let p := r.play [hum] trio.toArray (Runner.begin trio.toArray) interrupted
  have fates : p.fates.toList = [.evaluated (.ok (r.received [hum] ⟨7, ⟨1, 0, 1⟩⟩)),
      .evaluated (.error coincident), .skipped] := by
    simp [p, Runner.play, interrupted, Runner.event, Runner.begin, trio, apart, near,
      Runner.raisesAbort]
  have accepts : r.accept [hum] trio = .ok () := by
    rw [Runner.accept_eq_ok_iff, List.forall_mem_singleton]
    exact ⟨serves.1, by simp [Distinct, trio]⟩
  have ended : p.Over := by
    intro place fate isFate
    have isFate := Array.mem_toList_iff.2 (Array.mem_of_getElem? isFate)
    simp only [fates, List.mem_cons, List.not_mem_nil, or_false] at isFate
    rcases isFate with rfl | rfl | rfl
    · exact .inr ⟨_, rfl⟩
    · exact .inr ⟨_, rfl⟩
    · exact .inl rfl
  have reports : Runner.report trio p.fates.toList = .ok ⟨_, _, _⟩ := Runner.report_eq_ok_iff.2
    ⟨by simp [Runner.Fatal, fates, coincident, Fault.isFatal], rfl⟩
  have ends := Runner.Ends.finished accepts (Runner.reached_play .refl interrupted) ended
  rw [reports] at ends
  refine ⟨r, p, _, built, ends, ends.faithful.1 _ rfl, ?_, ?_, ?_⟩
  · simp [Report.table, Report.entries, trio, fates, Sequence.sortOn, Fate.result?]
  · simp [Report.table, Report.entries, trio, fates, Sequence.sortOn, Fate.fault?]
  · simp [fates, Fate.isSkipped]

end RoadNoise
