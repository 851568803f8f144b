/-
# What is stored of a run

What is stored of a run is the verdict of its container. A run that reports a container has made one,
started it and waited for it, and has written the connectivity that goes with the exit status, once. It
reports that the state is stale if that one write failed; a run that found another one dispatched under
its name writes once that the connector is connected; and a run that failed in any other way writes
nothing. The marker is held until the write has been answered.

Key definitions: `writes`, `removals`, `Waited`, `Persisted`.
Key theorems: `Account.no_writes`, `Account.finding`, `waited_of_had`, `removals_of_had`,
`Account.persisted`.
-/
import RunDispatch.Proofs.Run.Course

namespace RunDispatch
namespace Run

/-- A write of the connectivity: to whose connector, what was written, and the answer. -/
def Deed.write? : Deed → Option (String × Connector.Id × Connector.State × Event)
  | .called (.writeState owner connector state) e => some (owner, connector, state, e)
  | _ => none

/-- A removal of a container, by what ended the waiting for it. -/
def Deed.removal? : Deed → Option Event
  | .called (.container (.remove _)) e => some e
  | _ => none

def writes (log : List Deed) : List (String × Connector.Id × Connector.State × Event) :=
  log.filterMap Deed.write?

def removals (log : List Deed) : List Event := log.filterMap Deed.removal?

/-- The container of a request was made, then started, then waited for until it ended with a status. -/
def Waited (setup : Setup) (q : Request) (status : Int) (log : List Deed) : Prop :=
  ∃ id attached,
    (exchanged [Container.made (specFor q setup.layout) id,
      Container.ran (specFor q setup.layout) q.records id attached,
      Container.waited (specFor q setup.layout) id status]).Sublist log

section Logs

variable {setup : Setup} {q : Request} {log : List Deed}

@[simp] theorem writes_append (a b : List Deed) : writes (a ++ b) = writes a ++ writes b :=
  List.filterMap_append

@[simp] theorem removals_append (a b : List Deed) : removals (a ++ b) = removals a ++ removals b :=
  List.filterMap_append

@[simp] theorem writes_launching (b : Bytes) : writes (launching q b) = [] := rfl

@[simp] theorem removals_launching (b : Bytes) : removals (launching q b) = [] := rfl

@[simp] theorem writes_exchanged (l : List Container.Exchange) : writes (exchanged l) = [] := by
  simp [writes, exchanged, Deed.write?]

theorem writes_settling (finding : Finding) (result : Except StoreError Unit) :
    writes (settling q finding result) =
      [(q.owner, q.connector, finding.outcome.connectivity, .stored result)] := by
  unfold settling
  cases finding.dispatched <;> rfl

theorem removals_settling (finding : Finding) (result : Except StoreError Unit) :
    removals (settling q finding result) = [] := by
  unfold settling
  cases finding.dispatched <;> rfl

/-- A run does not write while it has its slot. -/
theorem writes_lastCall {phase : Phase} (hs : (inPhase q phase).holdsSlot = true) (e : Event) :
    writes ((inPhase q phase).lastCall setup e) = [] := by
  cases phase with
  | living stage => cases stage <;> rfl
  | staging | releasing => rfl
  | _ => simp [inPhase, holdsSlot] at hs

/-- **No write before its time.** A run has written nothing when it is about to write or to compensate. -/
theorem Account.no_writes {phase : Phase} (h : Account setup q phase log)
    (hp : (∃ finding, phase = .recording finding) ∨ ∃ f, phase = .compensating f) :
    writes log = [] := by
  cases h with
  | found b => rfl
  | removed b | fails b => simp
  | triedAgain b h hc cleanup =>
    simp only [writes_append, writes_launching, writes_exchanged]
    rfl
  | interrupted h hs =>
    obtain ⟨b, l, rfl⟩ := h.of_holdsSlot hs
    simp [writes_lastCall hs]
  | _ => simp at hp

theorem Waited.append {status : Int} (h : Waited setup q status log) (after : List Deed) :
    Waited setup q status (log ++ after) := by
  obtain ⟨id, attached, h⟩ := h
  exact ⟨id, attached, h.trans (List.sublist_append_left _ _)⟩

theorem waited_of_had {exit : Container.Exit} {l : List Container.Exchange}
    (h : Had setup q (.ended (.ok exit)) l) (before : List Deed) :
    Waited setup q exit.status (before ++ exchanged l) := by
  obtain ⟨attached, chunks, rfl⟩ := h
  refine ⟨exit.id, attached, ?_⟩
  refine List.Sublist.trans (List.Sublist.map _ ?_) (List.sublist_append_right _ _)
  exact .cons _ (.cons_cons _ (.cons_cons _ (.cons_cons _ (List.nil_sublist _))))

theorem removals_of_had {exit : Container.Exit} {l : List Container.Exchange}
    (h : Had setup q (.ended (.ok exit)) l) :
    removals (exchanged l) = [.container (Container.removalReply exit.cleanup)] := by
  obtain ⟨attached, chunks, rfl⟩ := h
  cases attached <;> rfl

/-- **What a run is about to write.** It found another run dispatched under its name, or its container
came to an end of its own, and the removal failed if it failed twice. -/
theorem Account.finding {finding : Finding} (h : Account setup q (.recording finding) log) :
    (finding = ⟨.ok, false, false⟩ ∧ .claim false ∈ log ∧ .claim true ∉ log) ∨
    (finding.dispatched = true ∧ .claim false ∉ log ∧
      (finding.cleanupFailed = true ↔
        ∃ f g, removals log = [.container (.failed f), .container (.failed g)]) ∧
      ∃ status, Waited setup q status log ∧ finding.outcome = .ofExitStatus status) := by
  cases h with
  | found b => exact .inl ⟨rfl, by simp, by simp [read]⟩
  | removed b h hc =>
    refine .inr ⟨rfl, by simp [launching, read, exchanged], ?_, _, waited_of_had h _, rfl⟩
    simp [removals_of_had h, hc]
  | triedAgain b h hc cleanup =>
    refine .inr ⟨rfl, by simp [launching, read, exchanged, removal], ?_, _,
      (waited_of_had h _).append _, rfl⟩
    obtain ⟨f, hf⟩ := Option.isSome_iff_exists.mp hc
    have hr : removals [removal q cleanup] = [.container (Container.removalReply cleanup)] := rfl
    rw [removals_append, removals_append, removals_of_had h, hr, hf]
    cases cleanup <;> simp [Container.removalReply]

/-- A run that is about to write has its marker still, if it claimed it. -/
theorem Account.not_deleted {finding : Finding} (h : Account setup q (.recording finding) log) :
    .delete ∉ log := by
  cases h <;> simp [launching, read, exchanged, removal]

end Logs

/-! ### The verdict -/

/-- What is stored of a run that has come to its end, and what it reports. -/
structure Persisted (setup : Setup) (q : Request) (log : List Deed)
    (result : Except Failure Report) : Prop where
  /-- A report of a container is the verdict of that container, and was written once. -/
  dispatched : ∀ report, result = .ok report → report.dispatched = true →
    ∃ status, Waited setup q status log ∧
      report.outcome = (if status = 0 then .ok else if status = 1 then .error else .unknown) ∧
      report.state = (if status = 0 then .connected else .error) ∧
      writes log = [(q.owner, q.connector, report.state, .stored (.ok ()))] ∧
      (report.cleanupFailed = true ↔
        ∃ f g, removals log = [.container (.failed f), .container (.failed g)])
  /-- The state is reported as stale exactly when the one write failed. -/
  stale_iff : (∃ name outcome e, result = .error (.stale name outcome e)) ↔
    ∃ state e, writes log = [(q.owner, q.connector, state, .stored (.error e))]
  /-- A stale state is that of the container's verdict, too. -/
  stale : ∀ name outcome e, result = .error (.stale name outcome e) →
    name = q.containerName ∧
      writes log = [(q.owner, q.connector, outcome.connectivity, .stored (.error e))] ∧
      ((.claim false ∈ log ∧ outcome = .ok) ∨
        ∃ status, Waited setup q status log ∧ outcome = .ofExitStatus status)
  /-- A run that found another one writes once, and reports no container. -/
  found : .claim false ∈ log →
    (∃ answer, writes log = [(q.owner, q.connector, .connected, .stored answer)]) ∧
      ∀ report, result = .ok report → report.dispatched = false
  /-- Only such a run reports no container. -/
  undispatched : ∀ report, result = .ok report → report.dispatched = false → .claim false ∈ log
  /-- A run that failed otherwise writes nothing. -/
  failed : ∀ f, result = .error f → (∀ name outcome e, f ≠ .stale name outcome e) → writes log = []
  /-- The marker is deleted when the write has been answered. -/
  held : .claim true ∈ log → writes log ≠ [] →
    ∃ before state answer,
      log = before ++ [.called (.writeState q.owner q.connector state) (.stored answer), .delete] ∧
        .delete ∉ before

section Ends

variable {setup : Setup} {q : Request} {log : List Deed}

/-- A run that failed before it was to write has written nothing. -/
theorem persisted_of_failed {f : Failure} (hw : writes log = []) (hc : .claim false ∉ log)
    (hf : ∀ name outcome e, f ≠ .stale name outcome e) : Persisted setup q log (.error f) where
  dispatched := nofun
  stale_iff := by
    constructor
    · rintro ⟨name, outcome, e, hs⟩
      cases hs
      exact absurd rfl (hf _ _ _)
    · rintro ⟨state, e, hs⟩
      rw [hw] at hs
      cases hs
  stale name outcome e hs := by
    cases hs
    exact absurd rfl (hf _ _ _)
  found h := absurd h hc
  undispatched := nofun
  failed _ _ _ := hw
  held _ h := absurd hw h

theorem connectivity_ofExitStatus (status : Int) :
    (Outcome.ofExitStatus status).connectivity = if status = 0 then .connected else .error := by
  unfold Outcome.ofExitStatus
  by_cases h0 : status = 0
  · rw [if_pos h0, if_pos h0]
    rfl
  · rw [if_neg h0, if_neg h0]
    split <;> rfl

/-- A run that was to write has written once, what it found. -/
theorem persisted_of_stored {finding : Finding} (h : Account setup q (.recording finding) log)
    (answer : Except StoreError Unit) :
    Persisted setup q (log ++ settling q finding answer) (verdict q finding answer) := by
  have hw : writes (log ++ settling q finding answer) =
      [(q.owner, q.connector, finding.outcome.connectivity, .stored answer)] := by
    rw [writes_append, h.no_writes (.inl ⟨_, rfl⟩), writes_settling, List.nil_append]
  have hr : removals (log ++ settling q finding answer) = removals log := by
    rw [removals_append, removals_settling, List.append_nil]
  have hm : ∀ won, .claim won ∈ log ++ settling q finding answer ↔ .claim won ∈ log := by
    intro won
    rw [List.mem_append, or_iff_left claim_not_mem_settling]
  constructor
  · intro report hres hd
    cases answer with
    | error e => cases hres
    | ok =>
      cases hres
      rcases h.finding with ⟨rfl, -⟩ | ⟨-, -, hc, status, hs, ho⟩
      · cases hd
      · refine ⟨status, hs.append _, ho, ?_, hw, ?_⟩
        · rw [← connectivity_ofExitStatus, ← ho]
          rfl
        · rw [hr]
          exact hc
  · rw [hw]
    cases answer <;> simp [verdict]
  · intro name outcome e hres
    cases answer with
    | ok => cases hres
    | error e =>
      cases hres
      refine ⟨rfl, hw, ?_⟩
      rcases h.finding with ⟨rfl, hc, -⟩ | ⟨-, -, -, status, hs, ho⟩
      · exact .inl ⟨(hm _).mpr hc, rfl⟩
      · exact .inr ⟨status, hs.append _, ho⟩
  · intro hc
    rcases h.finding with ⟨rfl, -⟩ | ⟨-, hn, -⟩
    · refine ⟨⟨answer, hw⟩, fun report hres => ?_⟩
      cases answer <;> cases hres
      rfl
    · exact absurd ((hm _).mp hc) hn
  · intro report hres hd
    cases answer with
    | error e => cases hres
    | ok =>
      cases hres
      rcases h.finding with ⟨rfl, hc, -⟩ | ⟨ht, -⟩
      · exact (hm _).mpr hc
      · exact absurd (ht.symm.trans hd) (by simp)
  · intro f hres hf
    cases answer <;> cases hres
    exact absurd rfl (hf _ _ _)
  · intro hc _
    rcases h.finding with ⟨rfl, -, hn⟩ | ⟨ht, -⟩
    · exact absurd ((hm _).mp hc) hn
    · refine ⟨log, finding.outcome.connectivity, answer, ?_, h.not_deleted⟩
      simp [settling, ht, write]

/-- What is stored of a run that has come to its end is told by its account. -/
theorem Account.persisted {result : Except Failure Report}
    (h : Account setup q (.ended result) log) : Persisted setup q log result := by
  cases h with
  | unread e => exact persisted_of_failed rfl (by simp) fun _ _ _ hf => by cases hf
  | stopped b => exact persisted_of_failed rfl (by simp [read]) fun _ _ _ hf => by cases hf
  | unstaged b e =>
    exact persisted_of_failed rfl (by simp [launching, read]) fun _ _ _ hf => by cases hf
  | lacksImage b h hf =>
    refine persisted_of_failed ?_ (by simp [launching, read, exchanged]) fun _ _ _ hf => by cases hf
    simp only [writes_append, writes_launching, writes_exchanged]
    rfl
  | cleared h cleanup =>
    refine persisted_of_failed ?_ ?_ ?_
    · rw [writes_append, h.no_writes (.inr ⟨_, rfl⟩)]
      rfl
    · exact (h.cleared cleanup).claims_once (List.mem_append_left _ (h.claimed_of_asks rfl))
    · intro name outcome e hf
      rcases h.compensated with ⟨g, hg, -⟩ | hg | hg <;> (rw [hf] at hg; cases hg)
  | stored h answer => exact persisted_of_stored h answer

end Ends

/-- **What is stored is the container's verdict.** Whatever was answered and whenever the run was
interrupted: when it has come to its end, what was stored of it and what it reports agree with what its
container did. -/
theorem Course.persists {setup : Setup} {others : Shared → Shared → Prop} {number : Nat}
    {q : Request} {s₀ s : Shared} {log : List Deed} {r : Run} {result : Except Failure Report}
    (h : Course setup others number q s₀ log s r) (hr : r.phase = .ended result) :
    Persisted setup q log result := by
  have ha := h.account
  rw [hr] at ha
  exact ha.persisted

/-- The events of a run whose container ends with status three and cannot be removed. -/
def leftBehind : List (Nat × Event) :=
  let refused : Container.Reply := .failed ⟨.cleanup, "c", "busy"⟩
  [(0, .configuration (.ok [])), (1, .file), (2, .file), (3, .container .done),
    (4, .container (.created "id")), (5, .container (.started true)), (6, .container (.exited 3)),
    (7, .container .done), (8, .container refused), (9, .file), (10, .container refused),
    (11, .stored (.ok ()))]

theorem sample_persists :
    (sample leftBehind).2.2.phase = .ended (.ok ⟨"c", .check, .unknown, true, true⟩) ∧
      Persisted sampleSetup sampleRequest (sample leftBehind).1
        (.ok ⟨"c", .check, .unknown, true, true⟩) :=
  have hr : (sample leftBehind).2.2.phase = .ended (.ok ⟨"c", .check, .unknown, true, true⟩) := by
    decide
  have hc : Course sampleSetup (fun _ _ => False) 0 sampleRequest sampleShared _ _ _ :=
    Course.play leftBehind .start
  ⟨hr, Course.persists hc hr⟩

end Run
end RunDispatch
