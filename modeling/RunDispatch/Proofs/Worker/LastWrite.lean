/-
# The last write decides

A run that writes the connectivity waits for the store, which takes the write at some moment before it
answers. Runs of one connector do not wait for each other there: the store takes their writes in any
order, and what is stored in the end is the write that was taken last.

So when a container ends with another status than zero, and its run was the only one of its name to launch
one, the connector is in error in the end exactly if the write of this run was taken after those of all
the runs that found its marker. Each of these writes that the connector is connected; nothing makes them
wait for the run whose marker they found.

Key definitions: `Database.connectivity?`, `Books`, `Ledger`, `OneFails`, `LastWrite`.
Key theorems: `Database.connectivity?_writeState`, `Ledger.stored`, `Ledger.backed`, `Ledger.answered`,
`OneFails.launcher`, `OneFails.duplicates`, `Ledger.last_write`.
-/
import RunDispatch.Proofs.Store.Isolation
import RunDispatch.Proofs.Worker.SameOperation

namespace RunDispatch

namespace Store

/-! ### The stored connectivity -/

/-- The number of the connectivity that is stored of an owner's connector. -/
def Database.connectivity? (d : Database) (owner : String) (id : Connector.Id) : Option Int :=
  (d.rows.find? (·.isSeen owner id)).map (·.stateNumber)

/-- **A write that succeeds is stored.** -/
theorem Database.connectivity?_writeState {d : Database} {owner : String} {id : Connector.Id}
    {state : Connector.State} {stamp : Option Moment}
    (h : (d.writeState owner id state stamp).2 = .ok ()) :
    (d.writeState owner id state stamp).1.connectivity? owner id = some state.number := by
  unfold writeState at h ⊢
  cases hf : barring d.writeFault () with
  | error e =>
    rw [hf] at h
    cases h
  | ok =>
    rw [hf] at h
    simp only at h ⊢
    split at h
    · rename_i hany
      obtain ⟨r, hr⟩ := Option.isSome_iff_exists.mp (List.find?_isSome.mpr (List.any_eq_true.mp hany))
      have hseen : r.isSeen owner id = true := by simpa using List.find?_some hr
      rw [if_pos hany, connectivity?, List.find?_map]
      simp only [Function.comp_def, isSeen_setState, hr, Option.map_some]
      rw [setState, if_pos hseen]
    · cases h

end Store

namespace Run

/-! ### What a launch is told by -/

/-- Whether a container was made for a run. -/
def Deed.creates : Deed → Bool
  | .called (.container (.create _)) (.container (.created _)) => true
  | _ => false

/-- The status with which a run was told that its container ended. -/
def Deed.exit? : Deed → Option Int
  | .called (.container (.wait _ _)) (.container (.exited status)) => some status
  | _ => none

def launched (log : List Deed) : Bool := log.any Deed.creates

def exits (log : List Deed) : List Int := log.filterMap Deed.exit?

/-- Whether the store answered that it has taken a write. -/
def Event.isStored : Event → Bool
  | .stored (.ok ()) => true
  | _ => false

theorem recording_of_call {setup : Setup} {r : Run} {owner : String} {connector : Connector.Id}
    {state : Connector.State} (h : r.call? setup = some (.writeState owner connector state)) :
    ∃ finding, r.phase = .recording finding ∧ owner = r.request.owner ∧
      connector = r.request.connector ∧ state = finding.outcome.connectivity := by
  unfold call? at h
  split at h
  all_goals first | cases h; done | skip
  · obtain ⟨_, -, ha⟩ := Option.map_eq_some_iff.mp h
    cases ha
  · rename_i finding hr
    cases h
    exact ⟨finding, hr, rfl, rfl, rfl⟩

/-- A container that was waited for was launched, and ended with the status that was told. -/
theorem Waited.launched_exits {setup : Setup} {q : Request} {status : Int} {log : List Deed}
    (h : Waited setup q status log) : launched log = true ∧ status ∈ exits log := by
  obtain ⟨id, attached, h⟩ := h
  have hmem : ∀ d ∈ exchanged [Container.made (specFor q setup.layout) id,
      Container.ran (specFor q setup.layout) q.records id attached,
      Container.waited (specFor q setup.layout) id status], d ∈ log := fun d hd => h.subset hd
  refine ⟨List.any_eq_true.mpr ⟨_, hmem _ (.head _), rfl⟩, ?_⟩
  exact List.mem_filterMap.mpr ⟨_, hmem _ (.tail _ (.tail _ (.head _))), rfl⟩

end Run

namespace Worker

/-! ### Worker and store together -/

/-- A worker with its store: what the runs have done, the writes that the store has taken, by run and
state, and what is stored. -/
structure Books where
  log : List Entry
  worker : Worker
  taken : List (Nat × Connector.State)
  database : Store.Database

/-- The write that a run waits for. -/
def write? (w : Worker) (number : Nat) : Option (String × Connector.Id × Connector.State) :=
  match (w.run? number).bind (·.call? w.setup) with
  | some (.writeState owner connector state) => some (owner, connector, state)
  | _ => none

/-- The run that is told that its write was taken. -/
def Event.stores? : Event → Option Nat
  | .run number (.stored (.ok ())) => some number
  | _ => none

namespace Books

def heed (b : Books) (now : Nat) (e : Event) : Books :=
  { b with log := b.log ++ b.worker.deeds now e, worker := b.worker.heed now e }

/-- After the store has taken a write. -/
def take (b : Books) (number : Nat) (owner : String) (connector : Connector.Id)
    (state : Connector.State) : Books :=
  { b with
    taken := b.taken ++ [(number, state)]
    database := (b.database.writeState owner connector state).1 }

end Books

/-- The histories of a worker with its store. The store takes the write of a run once, while the run waits
for it, and does not tell a run that its write was taken if it was not. -/
inductive Ledger (P : Nat → Worker → Prop) (b₀ : Books) : Nat → Books → Prop
  | start (now : Nat) : Ledger P b₀ now b₀
  | happens {now now' : Nat} {b : Books} (h : Ledger P b₀ now b) (ht : now ≤ now') (e : Event)
      (hP : P now' (b.worker.heed now' e)) (hs : ∀ i ∈ e.stores?, i ∈ b.taken.map (·.1)) :
      Ledger P b₀ now' (b.heed now' e)
  | takes {now : Nat} {b : Books} (h : Ledger P b₀ now b) {i : Nat} {owner : String}
      {connector : Connector.Id} {state : Connector.State}
      (hw : b.worker.write? i = some (owner, connector, state)) (hi : i ∉ b.taken.map (·.1))
      (hd : (b.database.writeState owner connector state).2 = .ok ()) :
      Ledger P b₀ now (b.take i owner connector state)

def Books.opening (w : Worker) (d : Store.Database) : Books := ⟨[], w, [], d⟩

section Ledgers

variable {P : Nat → Worker → Prop} {w₀ : Worker} {d₀ : Store.Database} {now : Nat} {b : Books}

theorem Ledger.history (h : Ledger P (.opening w₀ d₀) now b) : History P w₀ now b.log b.worker := by
  induction h with
  | start now => exact .start now
  | happens _ ht e hP _ ih => exact ih.step ht e hP
  | takes _ _ _ _ ih => exact ih

/-- The store takes one write of a run at most. -/
theorem Ledger.nodup (h : Ledger P (.opening w₀ d₀) now b) : (b.taken.map (·.1)).Nodup := by
  induction h with
  | start => exact List.nodup_nil
  | happens _ _ _ _ _ ih => exact ih
  | takes _ _ hi _ ih =>
    simp only [Books.take, List.map_append, List.map_cons, List.map_nil]
    refine List.nodup_append.mpr ⟨ih, by simp, fun x hx y hy hxy => hi ?_⟩
    rw [← List.mem_singleton.mp hy, ← hxy]
    exact hx

theorem recording_of_write? {w : Worker} {i : Nat} {owner : String} {connector : Connector.Id}
    {state : Connector.State} (h : w.write? i = some (owner, connector, state)) :
    ∃ r finding, w.run? i = some r ∧ r.phase = .recording finding ∧ owner = r.request.owner ∧
      connector = r.request.connector ∧ state = finding.outcome.connectivity := by
  unfold write? at h
  split at h
  · rename_i hc
    cases h
    obtain ⟨r, hr, hc⟩ := Option.bind_eq_some_iff.mp hc
    obtain ⟨finding, hf⟩ := Run.recording_of_call hc
    exact ⟨r, finding, hr, hf⟩
  · cases h

theorem requests_of_heed {w : Worker} {q : Request} {e : Event}
    (hs : ∀ i r, w.run? i = some r → r.Sound w.setup)
    (hq : ∀ i r, (w.heed now e).run? i = some r → r.request = q) (i : Nat) (r : Run)
    (hr : w.run? i = some r) : r.request = q := by
  obtain ⟨r', hr', hrq⟩ := (heed_change w now e).keeps hs hr
  rw [← hrq]
  exact hq i r' hr'

/-- **What is stored is what was taken last.** -/
theorem Ledger.stored (h : Ledger P (.opening w₀ d₀) now b) (h0 : w₀.tasks = []) {q : Request}
    (hq : ∀ i r, b.worker.run? i = some r → r.request = q) :
    b.database.connectivity? q.owner q.connector =
      (b.taken.getLast?.map (·.2.number)).or (d₀.connectivity? q.owner q.connector) := by
  induction h with
  | start => rfl
  | happens h _ e _ _ ih =>
    exact ih (requests_of_heed (fun _ _ hr => h.history.sound h0 hr) hq)
  | takes h hw _ hd _ =>
    obtain ⟨r, finding, hr, -, rfl, rfl, -⟩ := recording_of_write? hw
    rw [hq _ r hr] at hd ⊢
    simp only [Books.take, List.getLast?_concat, Option.map_some, Option.some_or]
    exact Store.Database.connectivity?_writeState hd

/-- What the deeds of a run tell of the state that it writes: it found another run dispatched, or its
container ended with a status. -/
def Backed (setup : Run.Setup) (q : Request) (log : List Run.Deed) (state : Connector.State) : Prop :=
  (state = .connected ∧ .claim false ∈ log) ∨
    ∃ status, Run.Waited setup q status log ∧ state = (Outcome.ofExitStatus status).connectivity

theorem Backed.append {setup : Run.Setup} {q : Request} {log : List Run.Deed}
    {state : Connector.State} (h : Backed setup q log state) (more : List Run.Deed) :
    Backed setup q (log ++ more) state := by
  rcases h with ⟨hs, hc⟩ | ⟨status, hw, hs⟩
  · exact .inl ⟨hs, List.mem_append_left _ hc⟩
  · exact .inr ⟨status, hw.append _, hs⟩

/-- What a run is about to write is backed by its deeds. -/
theorem backed_of_account {setup : Run.Setup} {q : Request} {log : List Run.Deed}
    {finding : Run.Finding} (h : Run.Account setup q (.recording finding) log) :
    Backed setup q log finding.outcome.connectivity := by
  rcases h.finding with ⟨rfl, hc, -⟩ | ⟨-, -, -, status, hw, ho⟩
  · exact .inl ⟨rfl, hc⟩
  · exact .inr ⟨status, hw, by rw [ho]⟩

/-- A run that waits to have something written goes on waiting, or has written. -/
theorem Change.recording {w w' : Worker} {entries : List Entry} (hc : Change now w w' entries)
    {i : Nat} {r : Run} {finding : Run.Finding} (hr : w.run? i = some r)
    (hf : r.phase = .recording finding) :
    (∃ r', w'.run? i = some r' ∧ r'.phase = .recording finding) ∨
      Run.writes (deedsOf i entries) ≠ [] := by
  cases hc with
  | acts number t e ht _ _ hw =>
    by_cases hi : i = number
    · subst hi
      rw [hr] at ht
      cases ht
      by_cases hp : (r.step w.setup now w.shared e).1.2.phase = r.phase
      · exact .inl ⟨_, by rw [hw i, if_pos rfl], hp.trans hf⟩
      · right
        rw [deedsOf_map, if_pos rfl, Run.deeds, if_neg hp, Run.writes_append]
        simp [Run.lastCall, Run.call?, hf, Run.writes, Run.Deed.write?]
    · exact .inl ⟨r, by rw [hw i, if_neg hi, hr], hf⟩
  | rests hw _ =>
    have hwi := hw i
    rw [hr] at hwi
    generalize w'.run? i = after at hwi ⊢
    cases hwi with
    | stays => exact .inl ⟨r, rfl, hf⟩
    | told => exact .inl ⟨_, rfl, hf⟩

/-- **What the store has taken** is backed by the deeds of its run, which waits for the answer or has had
it. -/
theorem Ledger.backed (h : Ledger P (.opening w₀ d₀) now b) (h0 : w₀.tasks = [])
    {x : Nat × Connector.State} (hx : x ∈ b.taken) :
    ∃ r, b.worker.run? x.1 = some r ∧ Backed w₀.setup r.request (deedsOf x.1 b.log) x.2 ∧
      ((∃ finding, r.phase = .recording finding) ∨ Run.writes (deedsOf x.1 b.log) ≠ []) := by
  induction h with
  | start => cases hx
  | @happens now now' b h ht e hP hs ih =>
    obtain ⟨r, hr, hb, hw⟩ := ih hx
    have hch := heed_change b.worker now' e
    obtain ⟨r', hr', hrq⟩ := hch.keeps (fun _ _ hr => h.history.sound h0 hr) hr
    simp only [Books.heed, deedsOf_append, Run.writes_append]
    refine ⟨r', hr', hrq ▸ hb.append _, ?_⟩
    rcases hw with ⟨finding, hf⟩ | hw
    · rcases hch.recording hr hf with ⟨t, ht, htf⟩ | hne
      · rw [hr'] at ht
        cases ht
        exact .inl ⟨finding, htf⟩
      · exact .inr (List.append_ne_nil_of_right_ne_nil _ hne)
    · exact .inr (List.append_ne_nil_of_left_ne_nil hw _)
  | @takes now b h i owner connector state hw hi hd ih =>
    rcases List.mem_append.mp hx with hx | hx
    · exact ih hx
    · rw [List.mem_singleton.mp hx]
      obtain ⟨r, finding, hr, hf, -, -, rfl⟩ := recording_of_write? hw
      obtain ⟨s₀, hco⟩ := h.history.course h0 hr
      have ha := hco.account
      rw [hf] at ha
      exact ⟨r, hr, backed_of_account ha, .inl ⟨finding, hf⟩⟩

/-- What ended the waiting of a run for a call is what the run heeded of what happened to it. -/
theorem happened_of_called {w : Worker} {e : Event} {i : Nat} {c : Run.Call} {ending : Run.Event}
    (h : .called c ending ∈ deedsOf i (w.deeds now e)) :
    ∃ r e', e = .run i e' ∧ w.run? i = some r ∧ r.call? w.setup = some c ∧ r.heeded e' = ending := by
  cases e with
  | run number e =>
    simp only [deeds] at h
    split at h
    · cases h
    · rename_i r hr
      split at h
      · cases h
      · rw [deedsOf_map] at h
        split at h
        · rename_i hi
          obtain ⟨hc, he⟩ := Run.called_of_mem_deeds h
          rw [hi]
          exact ⟨r, e, rfl, hr, hc, he.symm⟩
        · cases h
  | recordStart | spawn | tellToStop | forget | beginShutdown | evict | cleanup => cases h

theorem eq_of_heeded {r : Run} {e ending : Run.Event} (h : r.heeded e = ending)
    (hc : ending ≠ .cancel) : e = ending := by
  unfold Run.heeded at h
  split at h
  · exact h
  · split at h
    · exact absurd h.symm hc
    · exact h

/-- A run that has had a write stored was told so. -/
theorem stores_of_writes {w : Worker} {e : Event} {i : Nat}
    {x : String × Connector.Id × Connector.State × Run.Event}
    (hx : x ∈ Run.writes (deedsOf i (w.deeds now e))) (hs : x.2.2.2.isStored = true) :
    e.stores? = some i := by
  obtain ⟨d, hd, hx⟩ := List.mem_filterMap.mp hx
  have hd' : ∃ c, d = .called c x.2.2.2 := by
    unfold Run.Deed.write? at hx
    split at hx
    · cases hx
      exact ⟨_, rfl⟩
    · cases hx
  obtain ⟨c, rfl⟩ := hd'
  obtain ⟨r, e', rfl, -, -, he⟩ := happened_of_called hd
  have hans : x.2.2.2 = .stored (.ok ()) := by
    unfold Run.Event.isStored at hs
    split at hs
    · assumption
    · cases hs
  rw [eq_of_heeded (he.trans hans) nofun]
  rfl

/-- **What was answered was taken.** -/
theorem Ledger.answered (h : Ledger P (.opening w₀ d₀) now b) {i : Nat}
    {x : String × Connector.Id × Connector.State × Run.Event}
    (hx : x ∈ Run.writes (deedsOf i b.log)) (hs : x.2.2.2.isStored = true) :
    i ∈ b.taken.map (·.1) := by
  induction h with
  | start => cases hx
  | happens h ht e hP hst ih =>
    simp only [Books.heed, deedsOf_append, Run.writes_append] at hx
    rcases List.mem_append.mp hx with hx | hx
    · exact ih hx
    · exact hst i (stores_of_writes hx hs)
  | takes h hw hi hd ih =>
    simp only [Books.take, List.map_append]
    exact List.mem_append_left _ (ih hx)

end Ledgers

/-! ### One run fails, the others find its marker -/

/-- All runs are of one request and have come to their end, one of them launched a container, which ended
with another status than zero, and the store took every write. -/
structure OneFails (q : Request) (i : Nat) (log : List Entry) (w : Worker) : Prop where
  requests : ∀ j r, w.run? j = some r → r.request = q
  ended : ∀ j r, w.run? j = some r → ∃ result, r.phase = .ended result
  launched : Run.launched (deedsOf i log) = true
  alone : ∀ j, Run.launched (deedsOf j log) = true → j = i
  failed : ∃ status, Run.exits (deedsOf i log) = [status] ∧ status ≠ 0
  stored : ∀ j, ∀ x ∈ Run.writes (deedsOf j log), x.2.2.2.isStored = true

/-- What is stored of a connector in the end, if one run of it fails and the others find its marker. -/
structure LastWrite (q : Request) (i : Nat) (d₀ : Store.Database) (b : Books) : Prop where
  /-- Whoever found the marker has written that the connector is connected. -/
  duplicates : ∀ j, .claim false ∈ deedsOf j b.log → (j, .connected) ∈ b.taken
  /-- The run that launched the container has written that it is in error, if it makes a report. -/
  launcher : (i, .error) ∈ b.taken ↔
    ∃ r report, b.worker.run? i = some r ∧ r.phase = .ended (.ok report)
  /-- Nothing else was written, and nothing twice. -/
  only : ∀ x ∈ b.taken, x = (i, .error) ∨
    (x.1 ≠ i ∧ x.2 = .connected ∧ .claim false ∈ deedsOf x.1 b.log)
  once : (b.taken.map (·.1)).Nodup
  /-- What was taken last is stored. -/
  stored : b.database.connectivity? q.owner q.connector =
    (b.taken.getLast?.map (·.2.number)).or (d₀.connectivity? q.owner q.connector)
  /-- So the connector is in error exactly if the write of the run that launched the container was taken
  after all others. -/
  error_iff : b.taken ≠ [] →
    (b.database.connectivity? q.owner q.connector = some Connector.State.error.number ↔
      ∃ before, b.taken = before ++ [(i, .error)])

section Ends

variable {P : Nat → Worker → Prop} {w₀ : Worker} {d₀ : Store.Database} {now : Nat} {b : Books}

theorem History.not_launched {w : Worker} {log : List Entry} (h : History P w₀ now log w)
    (h0 : w₀.tasks = []) {i : Nat} {r : Run} (hr : w.run? i = some r)
    (hc : .claim false ∈ deedsOf i log) : Run.launched (deedsOf i log) = false := by
  refine Bool.eq_false_iff.mpr fun hl => ?_
  obtain ⟨d, hd, hdc⟩ := List.any_eq_true.mp hl
  unfold Run.Deed.creates at hdc
  split at hdc
  · exact (h.refused h0 hr hc).2.2 _ _ hd
  · cases hdc

theorem History.deedsOf_of_none {w : Worker} {log : List Entry} (h : History P w₀ now log w)
    (h0 : w₀.tasks = []) {i : Nat} (hr : w.run? i = none) : deedsOf i log = [] := by
  have ht := h.tracked h0 i
  rw [hr] at ht
  generalize deedsOf i log = l at ht ⊢
  cases ht with
  | absent => rfl

theorem History.run_of_deed {w : Worker} {log : List Entry} (h : History P w₀ now log w)
    (h0 : w₀.tasks = []) {i : Nat} {d : Run.Deed} (hd : d ∈ deedsOf i log) :
    ∃ r, w.run? i = some r := by
  refine Option.ne_none_iff_exists'.mp fun hnone => ?_
  rw [h.deedsOf_of_none h0 hnone] at hd
  cases hd

/-- What the store has taken is the error of the run that launched the container, or was written by a run
that found the marker. -/
theorem OneFails.only {q : Request} {i : Nat} (hf : OneFails q i b.log b.worker)
    (h : Ledger P (.opening w₀ d₀) now b) (h0 : w₀.tasks = []) {x : Nat × Connector.State}
    (hx : x ∈ b.taken) : x = (i, .error) ∨
      (x.1 ≠ i ∧ x.2 = .connected ∧ .claim false ∈ deedsOf x.1 b.log) := by
  obtain ⟨r, hr, hb, -⟩ := h.backed h0 hx
  rcases hb with ⟨hs, hc⟩ | ⟨status, hw, hs⟩
  · refine .inr ⟨fun hi => ?_, hs, hc⟩
    have hl := h.history.not_launched h0 hr hc
    rw [hi, hf.launched] at hl
    cases hl
  · obtain ⟨hl, he⟩ := hw.launched_exits
    have hi := hf.alone x.1 hl
    obtain ⟨s, hexits, hne⟩ := hf.failed
    rw [hi, hexits, List.mem_singleton] at he
    left
    refine Prod.ext hi ?_
    rw [hs, he, Run.connectivity_ofExitStatus, if_neg hne]

/-- The run that launched the container has written exactly if it makes a report. -/
theorem OneFails.launcher {q : Request} {i : Nat} (hf : OneFails q i b.log b.worker)
    (h : Ledger P (.opening w₀ d₀) now b) (h0 : w₀.tasks = []) :
    (i, .error) ∈ b.taken ↔ ∃ r report, b.worker.run? i = some r ∧ r.phase = .ended (.ok report) := by
  constructor
  · intro hx
    obtain ⟨r, hr, -, hw⟩ := h.backed h0 hx
    obtain ⟨result, hres⟩ := hf.ended i r hr
    obtain ⟨s₀, hco⟩ := h.history.course h0 hr
    have hp := hco.persists hres
    have hw : Run.writes (deedsOf i b.log) ≠ [] := by
      rcases hw with ⟨finding, hph⟩ | hw
      · rw [hres] at hph
        cases hph
      · exact hw
    cases result with
    | ok report => exact ⟨r, report, hr, hres⟩
    | error f =>
      by_cases hstale : ∃ name outcome e, f = .stale name outcome e
      · obtain ⟨name, outcome, e, rfl⟩ := hstale
        obtain ⟨-, hws, -⟩ := hp.stale _ _ _ rfl
        have := hf.stored i _ (by rw [hws]; exact List.mem_singleton_self _)
        cases this
      · exact absurd (hp.failed f rfl fun name outcome e hs => hstale ⟨name, outcome, e, hs⟩) hw
  · rintro ⟨r, report, hr, hres⟩
    obtain ⟨s₀, hco⟩ := h.history.course h0 hr
    have hp := hco.persists hres
    have hd : report.dispatched = true := Bool.of_not_eq_false fun hd => by
      have hl := h.history.not_launched h0 hr (hp.undispatched report rfl hd)
      rw [hf.launched] at hl
      cases hl
    obtain ⟨_, -, -, -, hw, -⟩ := hp.dispatched report rfl hd
    have hi := h.answered (i := i) (by rw [hw]; exact List.mem_singleton_self _) rfl
    obtain ⟨x, hx, rfl⟩ := List.mem_map.mp hi
    rcases hf.only h h0 hx with hxe | ⟨hne, -⟩
    · rwa [hxe] at hx
    · exact absurd rfl hne

/-- Whoever found the marker has written that the connector is connected. -/
theorem OneFails.duplicates {q : Request} {i : Nat} (hf : OneFails q i b.log b.worker)
    (h : Ledger P (.opening w₀ d₀) now b) (h0 : w₀.tasks = []) {j : Nat}
    (hc : .claim false ∈ deedsOf j b.log) : (j, .connected) ∈ b.taken := by
  obtain ⟨r, hr⟩ := h.history.run_of_deed h0 hc
  obtain ⟨result, hres⟩ := hf.ended j r hr
  obtain ⟨s₀, hco⟩ := h.history.course h0 hr
  obtain ⟨⟨answer, hw⟩, -⟩ := (hco.persists hres).found hc
  have hmem := List.mem_singleton_self
    ((r.request.owner, r.request.connector, Connector.State.connected, Run.Event.stored answer))
  rw [← hw] at hmem
  obtain ⟨x, hx, rfl⟩ := List.mem_map.mp (h.answered hmem (hf.stored j _ hmem))
  rcases hf.only h h0 hx with hxi | ⟨-, hxs, -⟩
  · have hl := h.history.not_launched h0 hr hc
    rw [hxi, hf.launched] at hl
    cases hl
  · rwa [← hxs]

/-- **The last write decides.** If one run launches a container that fails, the connector is in error in the
end exactly if the write of this run was the last that the store took. -/
theorem Ledger.last_write (h : Ledger P (.opening w₀ d₀) now b) (h0 : w₀.tasks = []) {q : Request}
    {i : Nat} (hf : OneFails q i b.log b.worker) : LastWrite q i d₀ b := by
  have honly := fun x (hx : x ∈ b.taken) => hf.only h h0 hx
  have hstored := h.stored h0 hf.requests
  refine ⟨fun j hc => hf.duplicates h h0 hc, hf.launcher h h0, honly, h.nodup, hstored,
    fun hne => ?_⟩
  have hlast := List.dropLast_concat_getLast hne
  rw [hstored, List.getLast?_eq_some_getLast hne, Option.map_some, Option.some_or]
  constructor
  · intro he
    rcases honly _ (List.getLast_mem hne) with hx | ⟨-, hx, -⟩
    · exact ⟨b.taken.dropLast, by rw [← hx, hlast]⟩
    · rw [hx] at he
      cases he
  · rintro ⟨before, hb⟩
    simp [hb]

end Ends

/-! ### A failure that is overturned -/

/-- Something that happens to a worker, or the store takes the write of a run. -/
inductive Act where
  | happens (now : Nat) (e : Event)
  | takes (number : Nat)

/-- A worker with its store after an act. -/
def Books.act (b : Books) : Act → Books
  | .happens now e => b.heed now e
  | .takes i =>
    match b.worker.write? i with
    | some (owner, connector, state) => b.take i owner connector state
    | none => b

/-- Whether an act can be next: it does not come before its time, and leads to a worker that has a
property; the store answers that it has taken what it has taken, and takes what a run waits to have
written. -/
def Books.Allows (P : Nat → Worker → Prop) (now : Nat) (b : Books) : Act → Prop
  | .happens now' e =>
    now ≤ now' ∧ P now' (b.worker.heed now' e) ∧ ∀ i ∈ e.stores?, i ∈ b.taken.map (·.1)
  | .takes i =>
    match b.worker.write? i with
    | some (owner, connector, state) =>
      i ∉ b.taken.map (·.1) ∧ (b.database.writeState owner connector state).2 = .ok ()
    | none => False

instance (P : Nat → Worker → Prop) [∀ now w, Decidable (P now w)] (now : Nat) (b : Books) :
    DecidablePred (b.Allows P now)
  | .happens now' e => inferInstanceAs (Decidable (now ≤ now' ∧ P now' (b.worker.heed now' e) ∧ _))
  | .takes i =>
    match h : b.worker.write? i with
    | some (owner, connector, state) =>
      decidable_of_iff (i ∉ b.taken.map (·.1) ∧
        (b.database.writeState owner connector state).2 = .ok ()) (by simp [Books.Allows, h])
    | none => .isFalse (by simp [Books.Allows, h])

/-- When an act takes place, if the last one did at `now`. -/
def Act.time (now : Nat) : Act → Nat
  | .happens now' _ => now'
  | .takes _ => now

/-- Whether acts can follow one another. -/
def Permitted (P : Nat → Worker → Prop) : Nat → Books → List Act → Prop
  | _, _, [] => True
  | now, b, a :: rest => b.Allows P now a ∧ Permitted P (a.time now) (b.act a) rest

instance Permitted.decidable (P : Nat → Worker → Prop) [∀ now w, Decidable (P now w)] :
    ∀ (now : Nat) (b : Books) (acts : List Act), Decidable (Permitted P now b acts)
  | _, _, [] => .isTrue trivial
  | now, b, a :: rest =>
    have := Permitted.decidable P (a.time now) (b.act a) rest
    inferInstanceAs (Decidable (b.Allows P now a ∧ _))

/-- Acts that can follow one another make a history. -/
theorem Ledger.play {P : Nat → Worker → Prop} {b₀ : Books} (acts : List Act) {now : Nat} {b : Books}
    (h : Ledger P b₀ now b) (hp : Permitted P now b acts) :
    ∃ now', Ledger P b₀ now' (acts.foldl Books.act b) := by
  induction acts generalizing now b with
  | nil => exact ⟨now, h⟩
  | cons a rest ih =>
    obtain ⟨ha, hrest⟩ := hp
    refine ih ?_ hrest
    cases a with
    | happens now' e => exact h.happens ha.1 e ha.2.1 ha.2.2
    | takes i =>
      simp only [Books.Allows] at ha
      split at ha
      · rename_i hw
        simp only [Act.time, Books.act, hw]
        exact h.takes hw ha.1 ha.2
      · cases ha

def sampleDatabase : Store.Database where
  rows := [⟨Run.sampleRequest.connector, "o", .null, 1, none, ⟨0⟩, ⟨0⟩⟩]
  states := []
  readFault := none
  writeFault := none

/-- Two runs of one request. The first launches a container, which ends with status one; the second finds
its marker, and its write is taken after that of the first. -/
def overturning : List Act :=
  [.happens 0 (.spawn Run.sampleRequest true), .happens 0 (.spawn Run.sampleRequest true),
    .happens 1 (.run 0 (.configuration (.ok []))), .happens 2 (.run 1 (.configuration (.ok []))),
    .happens 3 (.run 0 .file), .happens 3 (.run 0 .file), .happens 4 (.run 0 (.container .done)),
    .happens 5 (.run 0 (.container (.created "id"))),
    .happens 6 (.run 0 (.container (.started true))), .happens 7 (.run 0 (.container (.exited 1))),
    .happens 8 (.run 0 (.container .done)), .happens 9 (.run 0 (.container .done)),
    .happens 10 (.run 0 .file), .takes 0, .happens 11 (.run 0 (.stored (.ok ()))), .takes 1,
    .happens 12 (.run 1 (.stored (.ok ())))]

def overturned : Books := overturning.foldl Books.act (.opening sample sampleDatabase)

theorem permitted_overturning :
    Permitted (Timely true) 0 (.opening sample sampleDatabase) overturning := by
  decide

/-- Only two runs have done anything. -/
theorem deedsOf_overturned (j : Nat) : deedsOf (j + 2) overturned.log = [] := by
  have hrun : ∀ e ∈ overturned.log, e.run < 2 := by decide
  have hnone : overturned.log.filter (fun e => e.run = j + 2) = [] :=
    List.filter_eq_nil_iff.mpr fun e he => by
      have := hrun e he
      simp only [decide_eq_true_eq]
      omega
  rw [deedsOf, hnone, List.map_nil]

theorem oneFails_overturned : OneFails Run.sampleRequest 0 overturned.log overturned.worker where
  requests
    | 0, _, hr => by cases hr; rfl
    | 1, _, hr => by cases hr; rfl
    | _ + 2, _, hr => by cases hr
  ended
    | 0, _, hr => by cases hr; exact ⟨_, rfl⟩
    | 1, _, hr => by cases hr; exact ⟨_, rfl⟩
    | _ + 2, _, hr => by cases hr
  launched := by decide
  alone
    | 0, _ => rfl
    | 1, h => by
      have hn : Run.launched (deedsOf 1 overturned.log) = false := by decide
      rw [hn] at h
      cases h
    | j + 2, h => by
      rw [deedsOf_overturned] at h
      cases h
  failed := ⟨1, by decide, by decide⟩
  stored
    | 0 => by decide
    | 1 => by decide
    | j + 2 => by
      rw [deedsOf_overturned]
      nofun

theorem sample_last_write :
    (sample.tasks = [] ∧
      Permitted (Timely true) 0 (.opening sample sampleDatabase) overturning ∧
      OneFails Run.sampleRequest 0 overturned.log overturned.worker) ∧
    LastWrite Run.sampleRequest 0 sampleDatabase overturned := by
  obtain ⟨_, h⟩ := Ledger.play overturning (.start 0) permitted_overturning
  exact ⟨⟨rfl, permitted_overturning, oneFails_overturned⟩, h.last_write rfl oneFails_overturned⟩

/-- **A duplicate overturns a failed run.** No marker expires, all writes are stored, and the one container
that was launched failed; but in the end the connector is stored as connected. -/
theorem sample_overturned :
    Permitted (Timely true) 0 (.opening sample sampleDatabase) overturning ∧
    OneFails Run.sampleRequest 0 overturned.log overturned.worker ∧
    overturned.taken = [(0, .error), (1, .connected)] ∧
    overturned.database.connectivity? Run.sampleRequest.owner Run.sampleRequest.connector =
      some Connector.State.connected.number ∧
    Connector.State.connected.number ≠ Connector.State.error.number :=
  ⟨permitted_overturning, oneFails_overturned, by decide, by decide, by decide⟩

end Worker
end RunDispatch
