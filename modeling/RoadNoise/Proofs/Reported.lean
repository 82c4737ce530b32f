/-
# RoadNoise.Proofs.Reported -- what a report says of each receiver

A report is made from the receivers and what became of them.  It is an error when some
receiver failed for a reason that will come back, and else two tables by identifier,
one of results and one of failures (`Runner.report_eq_ok_iff`).  As identifiers do not
come back, an entry of a table belongs to one receiver, and says what became of it.
-/
import RoadNoise.Proofs.Received
import RoadNoise.Proofs.Sequence

set_option autoImplicit false

namespace RoadNoise

variable {α β : Type}

/-! ## Fates -/

namespace Fate

/-- The result of a receiver that has one. -/
def result? : Fate α → Option (ReceiverResult α)
  | .evaluated (.ok result) => some result
  | _ => none

/-- The fault of a receiver that failed. -/
def fault? : Fate α → Option (Fault α)
  | .evaluated (.error fault) => some fault
  | _ => none

def isSkipped : Fate α → Bool
  | .skipped => true
  | _ => false

theorem result?_eq_some_iff {fate : Fate α} {result : ReceiverResult α} :
    fate.result? = some result ↔ fate = .evaluated (.ok result) := by
  unfold result?
  split <;> simp_all

theorem fault?_eq_some_iff {fate : Fate α} {fault : Fault α} :
    fate.fault? = some fault ↔ fate = .evaluated (.error fault) := by
  unfold fault?
  split <;> simp_all

theorem isSkipped_iff {fate : Fate α} : fate.isSkipped = true ↔ fate = .skipped := by
  cases fate <;> simp [isSkipped]

end Fate

/-- Every receiver is skipped or evaluated. -/
def Progress.Over (p : Progress α) : Prop :=
  ∀ (place : Nat) (fate : Fate α), p.fates[place]? = some fate →
    fate = .skipped ∨ ∃ outcome, fate = .evaluated outcome

/-- One of three things is true of each receiver then. -/
theorem Progress.Over.cases {receivers : List (Receiver α)} {p : Progress α} (ended : p.Over)
    (size : p.fates.size = receivers.length) {place : Nat} {receiver : Receiver α}
    (isAt : receivers[place]? = some receiver) :
    p.fates[place]? = some .skipped ∨
      (∃ result, p.fates[place]? = some (.evaluated (.ok result))) ∨
      ∃ fault, p.fates[place]? = some (.evaluated (.error fault)) := by
  obtain ⟨bound, -⟩ := List.getElem?_eq_some_iff.1 isAt
  have isFate := Array.getElem?_eq_getElem (size ▸ bound)
  rcases ended place _ isFate with skipped | ⟨fault | result, evaluated⟩
  · exact .inl (isFate.trans (congrArg some skipped))
  · exact .inr (.inr ⟨fault, isFate.trans (congrArg some evaluated)⟩)
  · exact .inr (.inl ⟨result, isFate.trans (congrArg some evaluated)⟩)

/-! ## Identifiers -/

/-- No identifier comes back. -/
def Distinct (receivers : List (Receiver α)) : Prop := (receivers.map Receiver.id).Nodup

theorem Distinct.place_eq {receivers : List (Receiver α)} (distinct : Distinct receivers)
    {i j : Nat} {a b : Receiver α} (first : receivers[i]? = some a)
    (second : receivers[j]? = some b) (same : a.id = b.id) : i = j := by
  have isFirst : (receivers.map Receiver.id)[i]? = some a.id := by simp [first]
  have isSecond : (receivers.map Receiver.id)[j]? = some a.id := by simp [second, same]
  obtain ⟨bound, -⟩ := List.getElem?_eq_some_iff.1 isFirst
  exact (List.getElem?_inj bound distinct).1 (isFirst.trans isSecond.symm)

/-! ## Tables -/

namespace Report

/-- What is read from fates, under the identifiers of their receivers. -/
def entries (read : Fate α → Option β) (receivers : List (Receiver α)) (fates : List (Fate α)) :
    List (Nat × β) :=
  (receivers.zip fates).filterMap fun e => (read e.2).map (e.1.id, ·)

/-- The entries by increasing identifier. -/
def table (read : Fate α → Option β) (receivers : List (Receiver α)) (fates : List (Fate α)) :
    List (Nat × β) :=
  Sequence.sortOn (fun a b => compare a.1 b.1) (entries read receivers fates)

section

variable {read : Fate α → Option β} {receivers : List (Receiver α)} {fates : List (Fate α)}

theorem mem_table {id : Nat} {b : β} : (id, b) ∈ table read receivers fates ↔
    ∃ (place : Nat) (receiver : Receiver α) (fate : Fate α), receivers[place]? = some receiver ∧
      fates[place]? = some fate ∧ receiver.id = id ∧ read fate = some b := by
  rw [table, Sequence.mem_sortOn, entries, List.mem_filterMap]
  constructor
  · rintro ⟨⟨receiver, fate⟩, isPair, isEntry⟩
    obtain ⟨place, isAt⟩ := List.mem_iff_getElem?.1 isPair
    obtain ⟨isReceiver, isFate⟩ := List.getElem?_zip_eq_some.1 isAt
    obtain ⟨_, isRead, same⟩ := Option.map_eq_some_iff.1 isEntry
    obtain ⟨sameId, rfl⟩ := Prod.mk.injEq .. ▸ same
    exact ⟨place, receiver, fate, isReceiver, isFate, sameId, isRead⟩
  · rintro ⟨place, receiver, fate, isReceiver, isFate, rfl, isRead⟩
    have isAt := List.getElem?_zip_eq_some (z := (receiver, fate)).2 ⟨isReceiver, isFate⟩
    exact ⟨_, List.mem_of_getElem? isAt, by rw [isRead]; rfl⟩

theorem keys_entries_sublist :
    ((entries read receivers fates).map Prod.fst).Sublist (receivers.map Receiver.id) := by
  induction receivers generalizing fates with
  | nil => simp [entries]
  | cons receiver receivers ih =>
      cases fates with
      | nil => simp [entries]
      | cons fate fates =>
          rw [entries, List.zip_cons_cons, List.filterMap_cons, List.map_cons]
          cases read fate with
          | none => exact ih.cons _
          | some b => exact ih.cons_cons _

theorem keys_table_subset : (table read receivers fates).map Prod.fst ⊆ receivers.map Receiver.id :=
  fun _ key => keys_entries_sublist.subset (((Sequence.sortOn_perm _ _).map _).mem_iff.1 key)

theorem pairwise_le_table : (table read receivers fates).Pairwise fun a b => a.1 ≤ b.1 :=
  Sequence.pairwise_sortOn_of_key Prod.fst (fun _ _ => Nat.isLE_compare) _

/-- A table has one entry at most for an identifier. -/
theorem pairwise_lt_keys_table (distinct : Distinct receivers) :
    ((table read receivers fates).map Prod.fst).Pairwise (· < ·) := by
  have once : ((table read receivers fates).map Prod.fst).Nodup :=
    ((Sequence.sortOn_perm _ _).map _).nodup_iff.2 (keys_entries_sublist.nodup distinct)
  have sorted : ((table read receivers fates).map Prod.fst).Pairwise (· ≤ ·) :=
    List.pairwise_map.2 pairwise_le_table
  exact (sorted.and once).imp fun bounds => lt_of_le_of_ne bounds.1 bounds.2

theorem mem_keys_table {id : Nat} : id ∈ (table read receivers fates).map Prod.fst ↔
    ∃ b, (id, b) ∈ table read receivers fates := by
  simp

section Kind

variable {make : β → Fate α} (reads : ∀ fate b, read fate = some b ↔ fate = make b)
include reads

/-- A table of what one kind of fates is read from. -/
theorem mem_table_of_reads {id : Nat} {b : β} : (id, b) ∈ table read receivers fates ↔
    ∃ (place : Nat) (receiver : Receiver α), receivers[place]? = some receiver ∧
      receiver.id = id ∧ fates[place]? = some (make b) := by
  rw [mem_table]
  constructor
  · rintro ⟨place, receiver, fate, isReceiver, isFate, same, isRead⟩
    obtain rfl := (reads fate b).1 isRead
    exact ⟨place, receiver, isReceiver, same, isFate⟩
  · rintro ⟨place, receiver, isReceiver, same, isFate⟩
    exact ⟨place, receiver, _, isReceiver, isFate, same, (reads _ b).2 rfl⟩

/-- The entry of a receiver is about the receiver. -/
theorem mem_table_at (distinct : Distinct receivers) {place : Nat} {receiver : Receiver α}
    (isAt : receivers[place]? = some receiver) {b : β} :
    (receiver.id, b) ∈ table read receivers fates ↔ fates[place]? = some (make b) := by
  rw [mem_table_of_reads reads]
  constructor
  · rintro ⟨i, other, isOther, same, isFate⟩
    obtain rfl := distinct.place_eq isOther isAt same
    exact isFate
  · exact fun isFate => ⟨place, receiver, isAt, rfl, isFate⟩

end Kind

theorem mem_results {id : Nat} {result : ReceiverResult α} :
    (id, result) ∈ table Fate.result? receivers fates ↔
      ∃ (place : Nat) (receiver : Receiver α), receivers[place]? = some receiver ∧
        receiver.id = id ∧ fates[place]? = some (.evaluated (.ok result)) :=
  mem_table_of_reads fun _ _ => Fate.result?_eq_some_iff

theorem mem_results_at (distinct : Distinct receivers) {place : Nat} {receiver : Receiver α}
    (isAt : receivers[place]? = some receiver) {result : ReceiverResult α} :
    (receiver.id, result) ∈ table Fate.result? receivers fates ↔
      fates[place]? = some (.evaluated (.ok result)) :=
  mem_table_at (fun _ _ => Fate.result?_eq_some_iff) distinct isAt

theorem mem_failures_at (distinct : Distinct receivers) {place : Nat} {receiver : Receiver α}
    (isAt : receivers[place]? = some receiver) {fault : Fault α} :
    (receiver.id, fault) ∈ table Fate.fault? receivers fates ↔
      fates[place]? = some (.evaluated (.error fault)) :=
  mem_table_at (fun _ _ => Fate.fault?_eq_some_iff) distinct isAt

/-- No receiver is in both tables. -/
theorem disjoint_tables (distinct : Distinct receivers) :
    ((table Fate.result? receivers fates).map Prod.fst).Disjoint
      ((table Fate.fault? receivers fates).map Prod.fst) := by
  intro id isResult isFault
  obtain ⟨result, isResult⟩ := mem_keys_table.1 isResult
  obtain ⟨fault, isFault⟩ := mem_keys_table.1 isFault
  obtain ⟨place, receiver, isAt, rfl, evaluated⟩ := mem_results.1 isResult
  rw [mem_failures_at distinct isAt, evaluated] at isFault
  simp at isFault

/-- Who is in no table was skipped. -/
theorem missing_iff {p : Progress α} (distinct : Distinct receivers)
    (size : p.fates.size = receivers.length) (ended : p.Over) {place : Nat}
    {receiver : Receiver α} (isAt : receivers[place]? = some receiver) :
    (receiver.id ∉ (table Fate.result? receivers p.fates.toList).map Prod.fst ∧
      receiver.id ∉ (table Fate.fault? receivers p.fates.toList).map Prod.fst) ↔
        p.fates[place]? = some .skipped := by
  simp only [mem_keys_table, mem_results_at distinct isAt,
    mem_failures_at distinct isAt, Array.getElem?_toList]
  obtain skipped | ⟨result, isResult⟩ | ⟨fault, isFault⟩ := ended.cases size isAt
  · simp [skipped]
  · simp [isResult]
  · simp [isFault]

end

end Report

namespace Runner

variable {receivers : List (Receiver α)} {fates : List (Fate α)}

/-! ## Fatal faults -/

/-- Some receiver failed with the fault, and the fault will come back. -/
def Fatal (fates : List (Fate α)) (fault : Fault α) : Prop :=
  .evaluated (.error fault) ∈ fates ∧ fault.isFatal = true

theorem fatal_of_fatalFault? {fault : Fault α} (found : fatalFault? fates = some fault) :
    Fatal fates fault := by
  obtain ⟨fate, isFate, isFatal⟩ := List.exists_of_findSome?_eq_some found
  rcases fate with - | - | - | (other | result)
  · simp at isFatal
  · simp at isFatal
  · simp at isFatal
  · obtain ⟨fatal, rfl⟩ : other.isFatal = true ∧ other = fault := by simpa using isFatal
    exact ⟨isFate, fatal⟩
  · simp at isFatal

theorem fatalFault?_eq_none_iff : fatalFault? fates = none ↔ ∀ fault, ¬Fatal fates fault := by
  constructor
  · intro none fault fatal
    have skipped := List.findSome?_eq_none_iff.1 none _ fatal.1
    simp [fatal.2] at skipped
  · intro harmless
    cases found : fatalFault? fates with
    | none => rfl
    | some fault => exact absurd (fatal_of_fatalFault? found) (harmless fault)

/-! ## Checks and report of a batch -/

theorem checkIds_eq_ok_iff {seen : List Nat} {u : Unit} : checkIds seen receivers = .ok u ↔
    Distinct receivers ∧ ∀ receiver ∈ receivers, receiver.id ∉ seen := by
  induction receivers generalizing seen with
  | nil => simp [checkIds, Distinct, pure, Except.pure]
  | cons receiver receivers ih =>
      rw [checkIds, check_bind_eq_ok_iff, require_eq_ok_iff, ih]
      simp only [Distinct, List.map_cons, List.nodup_cons, List.mem_cons, List.mem_map,
        Bool.not_eq_true', List.contains_eq_mem, decide_eq_false_iff_not]
      grind

theorem checkSources_eq_ok_iff {bands : BandSet} {sources : List (PointSource α)} {u : Unit} :
    checkSources bands sources = .ok u ↔ ∀ s ∈ sources, s.spectrum.bands = bands := by
  simp only [checkSources, forM_eq_ok_iff, Spectrum.ensure_eq_ok_iff]

/-- What is asked of a batch before it begins. -/
def accept (r : Runner α) (sources : List (PointSource α)) (receivers : List (Receiver α)) :
    Outcome α Unit := do
  checkSources r.settings.bands sources
  checkIds [] receivers

theorem accept_eq_ok_iff {r : Runner α} {sources : List (PointSource α)} {u : Unit} :
    r.accept sources receivers = .ok u ↔
      (∀ s ∈ sources, s.spectrum.bands = r.settings.bands) ∧ Distinct receivers := by
  simp [accept, check_bind_eq_ok_iff, checkSources_eq_ok_iff, checkIds_eq_ok_iff]

theorem report_of_fatalFault? {fault : Fault α} (found : fatalFault? fates = some fault) :
    report receivers fates = .error fault := by
  rw [report, found]
  rfl

/-- A report is made unless a fault is fatal. -/
theorem report_eq_ok_iff {made : Report α} : report receivers fates = .ok made ↔
    (∀ fault, ¬Fatal fates fault) ∧ made = ⟨Report.table Fate.result? receivers fates,
      Report.table Fate.fault? receivers fates, fates.any Fate.isSkipped⟩ := by
  rw [← fatalFault?_eq_none_iff]
  cases found : fatalFault? fates with
  | some fault => simp [report_of_fatalFault? found]
  | none =>
      have results : (fun e : Receiver α × Fate α => match e.2 with
          | .evaluated (.ok result) => some (e.1.id, result)
          | _ => none) = fun e => (Fate.result? e.2).map (e.1.id, ·) := by
        funext ⟨receiver, fate⟩
        rcases fate with - | - | - | (fault | result) <;> rfl
      have failures : (fun e : Receiver α × Fate α => match e.2 with
          | .evaluated (.error fault) => some (e.1.id, fault)
          | _ => none) = fun e => (Fate.fault? e.2).map (e.1.id, ·) := by
        funext ⟨receiver, fate⟩
        rcases fate with - | - | - | (fault | result) <;> rfl
      simp only [report, found, Report.table, Report.entries, ← results, ← failures, true_and,
        pure, Except.pure, Except.ok.injEq, @eq_comm _ made]
      rfl

end Runner

end RoadNoise
