/-
# Shutdown is final

A worker is shut down by one call, which tells all runs to stop and waits until none is in flight. A call
that submits a run is let in by a check, records the run, and then spawns it; calls of any number of
callers, the steps of the runs and the shutdown come in any order. So a run may be spawned after shutdown
has begun, or even after it has returned, if its call was let in before.

Such a run is told to stop from the start, and a run that was told to stop does nothing after it has read
its configuration. That is what keeps the worker quiet once shutdown has returned: the runs spawned before
are over, and the others only read.

The registry is followed by the calls on it, each with the run that makes it: they tell what became of it
(`Reaches.registry`), and a run makes one, when it comes to its end (`Reaches.callsBy`).

Key definitions: `Task.InOrder`, `signedCalls`, `Still`, `Front`, `Front.Allows`, `Front.act`, `Reaches`,
`ResultRecorded`, `Final`.
Key theorems: `step_late`, `Reaches.inOrder`, `Reaches.registry`, `Reaches.callsBy`, `Reaches.still`,
`Reaches.final`.
-/
import RunDispatch.Proofs.Worker.Exclusion
import RunDispatch.Proofs.Worker.Recorded

namespace RunDispatch

namespace Run

/-- Whether something that happens is neither that what the run called broke down nor that the run is given
up. -/
def Event.isCalm : Event → Bool
  | .panic | .drop => false
  | _ => true

section Steps

variable {setup : Setup} {now : Nat} {s s' : Shared} {r r' : Run} {e : Event}

theorem fatal_heeded (h : e.isCalm = true) : fatal? (r.heeded e) = none := by
  unfold heeded
  cases e <;> simp only [Event.isCalm, Bool.false_eq_true] at h <;> (dsimp only; split <;> rfl)

/-- A run that nothing breaks comes to its end only with a result. -/
theorem Move.ended_of_isOver (h : Move setup now s r e s' r') (he : fatal? e = none)
    (ho : r.isOver = false) (ho' : r'.isOver = true) : ∃ result, r'.phase = .ended result := by
  cases h with
  | stays | notes =>
    have : r.isOver = true := ho'
    rw [ho] at this
    cases this
  | unread | stopsEarly | stopsWaiting | cannotStage | lacksImage | clears => exact ⟨_, rfl⟩
  | records finding h result => cases result <;> exact ⟨_, rfl⟩
  | waits | finds | claims | prepares | stages | launches | fails | exits | releases | retries | finishes
  | retried | stops | timesOut => cases ho'
  | lives stage next h reply hn hne hl => cases ho'
  | breaksWaiting e phase hf | breaksInSlot e phase hf | breaks e phase hf =>
    rw [he] at hf
    cases hf

theorem Move.cancelled (h : Move setup now s r e s' r') (hc : r.cancelled = true) :
    r'.cancelled = true := by
  cases h with
  | records finding h result => cases result <;> exact hc
  | notes | stopsWaiting | stops => rfl
  | _ => exact hc

/-- **A run that was told to stop before it has its configuration** goes on reading or comes to its end,
and does nothing but read. -/
theorem step_late (now : Nat) (s : Shared) (hs : r.Sound setup) (hr : r.phase = .reading) (hc : r.cancelled = true)
    (he : e.isCalm = true) :
    ((r.step setup now s e).1.2.phase = .reading ∨ (r.step setup now s e).1.2.isOver = true) ∧
      ∀ d ∈ r.deeds setup (r.heeded e) (r.step setup now s e).1.2,
        d = .called (.readConfiguration r.request.owner r.request.connector) (r.heeded e) := by
  have hm : Move setup now s r (r.heeded e) _ _ := step_move hs e
  have hp := hs.place
  simp only [InPlace, hr] at hp
  have hslot : r.holdsSlot = false := by simp [holdsSlot, hr]
  have hcall : ∀ e, r.lastCall setup e =
      [.called (.readConfiguration r.request.owner r.request.connector) e] := by
    intro e
    simp [lastCall, call?, hr]
  have hfatal := fatal_heeded (r := r) he
  generalize (r.step setup now s e).1.1 = s' at hm
  generalize (r.step setup now s e).1.2 = r' at hm ⊢
  generalize r.heeded e = e' at hm hfatal ⊢
  -- A run that goes on without a claim has done nothing but end its waiting.
  have hgoes : ∀ r'' : Run, r''.phase ≠ .reading → r''.deadline = r.deadline → r''.holds = r.holds →
      ∀ d ∈ r.deeds setup e' r'',
        d = .called (.readConfiguration r.request.owner r.request.connector) e' := by
    intro r'' hne hd hh d hm
    rw [deeds_goesOn (fun hph => absurd (hph.trans hr) hne) hd hh, hcall] at hm
    exact List.mem_singleton.mp hm
  cases hm with
  | stays =>
    rw [deeds_self]
    exact ⟨.inl hr, List.forall_mem_nil _⟩
  | notes =>
    rw [deeds_told]
    exact ⟨.inl hr, List.forall_mem_nil _⟩
  | unread | stopsEarly =>
    exact ⟨.inr rfl, hgoes _ (by simp [finish]) rfl (by simp [holds, finish, hr, hp.1])⟩
  | waits _ _ _ _ hn =>
    rw [hc] at hn
    cases hn
  | finds _ _ _ ha | claims _ _ _ ha =>
    rcases ha with ⟨-, -, hn, -⟩ | ⟨hq, -⟩
    · rw [hc] at hn
      cases hn
    · rw [hr] at hq
      cases hq
  | stops h | timesOut h =>
    rw [hslot] at h
    cases h
  | breaksWaiting e phase hf | breaksInSlot e phase hf | breaks e phase hf =>
    rw [hfatal] at hf
    cases hf
  | stopsWaiting _ h | prepares _ _ _ h | stages _ _ _ _ _ h | launches _ _ _ h | cannotStage _ _ h
  | lives _ _ h | fails _ h | lacksImage _ h | exits _ h | releases _ _ _ h | retries _ _ h
  | finishes _ _ h | retried _ h | records _ h | clears _ h =>
    rw [hr] at h
    cases h

end Steps

end Run

/-- A task of a run that was submitted, is watched, and comes to its end only with a result; once shutdown
has begun the run is told to stop. -/
structure Task.InOrder (closing : Bool) (t : Task) : Prop where
  watched : t.watched = true
  submitted : t.submitted = true
  whole : t.run.isOver = true → ∃ result, t.run.phase = .ended result
  stopped : closing = true → t.run.cancelled = true

namespace Worker

/-! ### The tasks after something happened -/

/-- Whether something that happens may be between a submission and the next: a step of a run, or the tidying
up of markers, statuses and files. -/
def Event.isCalm : Event → Bool
  | .run _ e => e.isCalm
  | .evict | .cleanup _ => true
  | _ => false

/-- The run that takes a step when something happens, if one does. -/
def Event.actor? : Event → Option Nat
  | .run number _ => some number
  | _ => none

/-- The calls on the registry when something happens, each with the run that makes it, if a run does. -/
def signedCalls (w : Worker) (now : Nat) (e : Event) : List (Option Nat × Registry.Turn) :=
  (w.calls now e).map fun x => (e.actor?, x)

/-- The calls of run `i` among signed ones. -/
def callsBy (i : Nat) (signed : List (Option Nat × Registry.Turn)) : List Registry.Call :=
  (signed.filter (·.1 = some i)).map (·.2.call)

theorem callsBy_append (i : Nat) (a b : List (Option Nat × Registry.Turn)) :
    callsBy i (a ++ b) = callsBy i a ++ callsBy i b := by
  simp [callsBy]

theorem signedCalls_unsigned (w : Worker) (now : Nat) (e : Event) :
    (w.signedCalls now e).map (·.2) = w.calls now e := by
  rw [signedCalls, List.map_map]
  exact List.map_id _

theorem callsBy_signedCalls (w : Worker) (now : Nat) (e : Event) (i : Nat) :
    callsBy i (w.signedCalls now e) = if e.actor? = some i then (w.call? now e).toList else [] := by
  rw [callsBy, signedCalls, calls]
  cases w.call? now e with
  | none => split <;> rfl
  | some c => by_cases h : e.actor? = some i <;> simp [h]

section Tasks

variable {w : Worker} {now : Nat}

theorem tasks_spawn (q : Request) (submitted : Bool) (i : Nat) :
    (w.heed now (.spawn q submitted)).tasks[i]? =
      if i = w.tasks.length then
        some ⟨{ Run.start i q with cancelled := submitted && w.closing }, submitted, submitted⟩
      else w.tasks[i]? := by
  simp only [heed, spawn]
  rcases Nat.lt_trichotomy i w.tasks.length with hi | rfl | hi
  · rw [List.getElem?_append_left hi, if_neg (Nat.ne_of_lt hi)]
  · rw [List.getElem?_concat_length, if_pos rfl]
  · rw [if_neg (Nat.ne_of_gt hi), List.getElem?_eq_none (Nat.le_of_lt hi), List.getElem?_eq_none]
    rw [List.length_append, List.length_singleton]
    omega

/-- A step of a run changes its task, unless the run is over, and no other. -/
theorem tasks_run (number : Nat) (e : Run.Event) (i : Nat) :
    (w.heed now (.run number e)).tasks[i]? =
      if i = number then
        w.tasks[i]?.map fun t =>
          if t.run.isOver then t else { t with run := (t.run.step w.setup now w.shared e).1.2 }
      else w.tasks[i]? := by
  simp only [heed, deliver]
  cases ht : w.tasks[number]? with
  | none =>
    dsimp only
    split
    · rename_i hi
      rw [hi, ht]
      rfl
    · rfl
  | some t =>
    dsimp only
    split
    · rename_i ho
      split
      · rename_i hi
        rw [hi, ht, Option.map_some, if_pos ho]
      · rfl
    · rename_i ho
      simp only [List.getElem?_set]
      split
      · rename_i hi
        subst hi
        rw [if_pos rfl, ht, Option.map_some, if_neg ho]
        exact if_pos (List.getElem?_eq_some_iff.mp ht).1
      · rename_i hi
        rw [if_neg fun h => hi h.symm]

theorem tasks_shut (i : Nat) :
    (w.heed now .beginShutdown).tasks[i]? = w.tasks[i]?.map fun t =>
      if t.submitted then { t with run := { t.run with cancelled := true } } else t := by
  simp only [heed, beginShutdown, List.getElem?_map]

theorem closing_heed {e : Event} (he : e ≠ .beginShutdown) : (w.heed now e).closing = w.closing := by
  cases hq : e.isQuiet with
  | true =>
    obtain ⟨_, _, hw⟩ := heed_of_isQuiet w now hq
    rw [hw]
  | false =>
    cases e with
    | run number e =>
      simp only [heed, deliver]
      split
      · rfl
      · split <;> rfl
    | beginShutdown => exact absurd rfl he
    | recordStart | spawn | evict => rfl
    | tellToStop | forget | cleanup => cases hq

/-! ### What submissions, runs and the shutdown keep -/

/-- Whether something that happens may happen to a worker whose runs are all submitted, watched and never
given up. -/
def Event.isOrderly : Event → Bool
  | .recordStart _ | .beginShutdown => true
  | .spawn _ submitted => submitted
  | e => e.isCalm

/-- Tasks in order stay so. -/
theorem inOrder_heed (hs : ∀ i r, w.run? i = some r → r.Sound w.setup)
    (h : ∀ (i : Nat) (t : Task), w.tasks[i]? = some t → t.InOrder w.closing) {e : Event} (he : e.isOrderly = true)
    (i : Nat) (t : Task) (ht : (w.heed now e).tasks[i]? = some t) :
    t.InOrder (w.heed now e).closing := by
  cases e with
  | recordStart | evict => exact h i t ht
  | cleanup id =>
    obtain ⟨disk, hw⟩ := heed_cleanup w now id
    rw [hw] at ht ⊢
    exact h i t ht
  | spawn q submitted =>
    rw [tasks_spawn] at ht
    split at ht
    · cases ht
      have hsub : submitted = true := he
      exact ⟨hsub, hsub, nofun, fun hc => by simp [hsub]; exact hc⟩
    · exact h i t ht
  | run number e =>
    rw [closing_heed (e := .run number e) nofun]
    rw [tasks_run] at ht
    split at ht
    · obtain ⟨u, hu, rfl⟩ := Option.map_eq_some_iff.mp ht
      obtain ⟨hw, hsub, hwhole, hstop⟩ := h i u hu
      split
      · exact ⟨hw, hsub, hwhole, hstop⟩
      · rename_i ho
        have hm : Run.Move w.setup now w.shared u.run (u.run.heeded e) _ _ :=
          Run.step_move (hs i u.run (by simp [run?, hu])) e
        exact ⟨hw, hsub, hm.ended_of_isOver (Run.fatal_heeded he) (Bool.of_not_eq_true ho),
          fun hc => hm.cancelled (hstop hc)⟩
    · exact h i t ht
  | beginShutdown =>
    rw [tasks_shut] at ht
    obtain ⟨u, hu, rfl⟩ := Option.map_eq_some_iff.mp ht
    obtain ⟨hw, hsub, hwhole, -⟩ := h i u hu
    rw [if_pos hsub]
    exact ⟨hw, hsub, hwhole, fun _ => rfl⟩
  | tellToStop | forget => cases he

/-- The call of a run on the registry, given its task: none, or the one that records its end. -/
def endCallsOf (t : Option Task) : List Registry.Call :=
  (t.bind Task.endCall?).toList

theorem endCall?_of_not_isOver {t : Task} (h : t.run.isOver = false) : t.endCall? = none :=
  Option.eq_none_iff_forall_ne_some.mpr fun c hc => by
    rw [Task.isOver_of_endCall? hc] at h
    cases h

/-- **The registry is called by a run in the step in which its end comes.** -/
theorem endCallsOf_heed {e : Event} (he : e.isOrderly = true) (i : Nat) :
    endCallsOf (w.heed now e).tasks[i]? =
      endCallsOf w.tasks[i]? ++ callsBy i (w.signedCalls now e) := by
  rw [callsBy_signedCalls]
  cases e with
  | recordStart | evict => exact (List.append_nil _).symm
  | cleanup id =>
    obtain ⟨disk, hw⟩ := heed_cleanup w now id
    rw [hw]
    exact (List.append_nil _).symm
  | spawn q submitted =>
    rw [tasks_spawn]
    split
    · rename_i hi
      rw [hi, List.getElem?_eq_none (Nat.le_refl _)]
      simp [endCallsOf, Task.endCall?, Run.start, Event.actor?]
    · exact (List.append_nil _).symm
  | run number e =>
    rw [tasks_run]
    simp only [Event.actor?, Option.some.injEq, call?]
    by_cases hi : i = number
    · subst hi
      rw [if_pos rfl, if_pos rfl]
      cases ht : w.tasks[i]? with
      | none => rfl
      | some t =>
        simp only [Option.map_some]
        split
        · exact (List.append_nil _).symm
        · rename_i ho
          simp only [endCallsOf, Option.bind_some, endCall?_of_not_isOver (Bool.of_not_eq_true ho),
            Option.toList_none, List.nil_append]
    · rw [if_neg hi, if_neg fun h => hi h.symm, List.append_nil]
  | beginShutdown =>
    rw [tasks_shut]
    have hsame : ∀ t : Task, Task.endCall?
        (if t.submitted then { t with run := { t.run with cancelled := true } } else t) = t.endCall? := by
      intro t
      split <;> rfl
    cases w.tasks[i]? with
    | none => rfl
    | some t => simp [endCallsOf, hsame t, Event.actor?]
  | tellToStop | forget => cases he

/-- Whether a run only asked for its configuration. -/
def Entry.Reads (x : Entry) : Prop :=
  ∃ owner connector e, x.deed = .called (.readConfiguration owner connector) e

/-- The first `n` runs of a worker are over, and so is every other that does not wait for its
configuration. -/
structure Still (n : Nat) (w : Worker) : Prop where
  there : ∀ i < n, ∃ t : Task, w.tasks[i]? = some t
  atRest : ∀ (i : Nat) (t : Task), w.tasks[i]? = some t →
    t.run.isOver = true ∨ (n ≤ i ∧ t.run.phase = .reading)

/-- **Nothing stirs any more** once the runs in flight when shutdown had begun are over: runs only read. -/
theorem Still.heed {n : Nat} (h : Still n w) (now : Nat) (hs : ∀ i r, w.run? i = some r → r.Sound w.setup)
    (ho : ∀ (i : Nat) (t : Task), w.tasks[i]? = some t → t.InOrder true) {e : Event}
    (he : e.isOrderly = true) :
    Still n (w.heed now e) ∧ ∀ x ∈ w.deeds now e, x.Reads := by
  cases e with
  | recordStart | evict => exact ⟨⟨h.there, h.atRest⟩, List.forall_mem_nil _⟩
  | cleanup id =>
    obtain ⟨disk, hw⟩ := heed_cleanup w now id
    rw [hw]
    exact ⟨⟨h.there, h.atRest⟩, List.forall_mem_nil _⟩
  | spawn q submitted =>
    refine ⟨⟨fun i hi => ?_, fun i t ht => ?_⟩, List.forall_mem_nil _⟩
    · rw [tasks_spawn]
      split
      · exact ⟨_, rfl⟩
      · exact h.there i hi
    · rw [tasks_spawn] at ht
      split at ht
      · rename_i hi
        cases ht
        refine .inr ⟨Nat.le_of_not_lt fun hlt => ?_, rfl⟩
        obtain ⟨t, ht⟩ := h.there i hlt
        rw [hi, List.getElem?_eq_none (Nat.le_refl _)] at ht
        cases ht
      · exact h.atRest i t ht
  | beginShutdown =>
    refine ⟨⟨fun i hi => ?_, fun i t ht => ?_⟩, List.forall_mem_nil _⟩
    · obtain ⟨t, ht⟩ := h.there i hi
      rw [tasks_shut, ht]
      exact ⟨_, rfl⟩
    · rw [tasks_shut] at ht
      obtain ⟨u, hu, rfl⟩ := Option.map_eq_some_iff.mp ht
      rw [if_pos (ho i u hu).submitted]
      exact h.atRest i u hu
  | run number e =>
    -- A run that takes a step has not got its configuration, and was told to stop.
    have hlate : ∀ t : Task, w.tasks[number]? = some t → t.run.isOver = false →
        n ≤ number ∧ _ := fun t ht hno =>
      have hr : n ≤ number ∧ t.run.phase = .reading :=
        (h.atRest number t ht).resolve_left (by simp [hno])
      ⟨hr.1, Run.step_late now w.shared (hs number t.run (by simp [run?, ht])) hr.2
        ((ho number t ht).stopped rfl) he⟩
    refine ⟨⟨fun i hi => ?_, fun i t ht => ?_⟩, fun x hx => ?_⟩
    · obtain ⟨t, ht⟩ := h.there i hi
      rw [tasks_run]
      split
      · rw [ht]
        exact ⟨_, rfl⟩
      · exact ⟨t, ht⟩
    · rw [tasks_run] at ht
      split at ht
      · rename_i hi
        subst hi
        obtain ⟨u, hu, rfl⟩ := Option.map_eq_some_iff.mp ht
        split
        · rename_i hover
          exact .inl hover
        · rename_i hover
          obtain ⟨hn, hstep, -⟩ := hlate u hu (Bool.of_not_eq_true hover)
          exact hstep.elim (fun hr => .inr ⟨hn, hr⟩) .inl
      · exact h.atRest i t ht
    · cases hr : w.run? number with
      | none => simp [deeds, hr] at hx
      | some r =>
        obtain ⟨t, ht, rfl⟩ := task_of_run? hr
        cases hover : t.run.isOver with
        | true => simp [deeds, hr, hover] at hx
        | false =>
          obtain ⟨-, -, hd⟩ := heed_run hr hover now e
          rw [hd] at hx
          obtain ⟨d, hd', rfl⟩ := List.mem_map.mp hx
          exact ⟨_, _, _, (hlate t ht hover).2.2 d hd'⟩
  | tellToStop | forget => cases he

end Tasks

/-! ### Submissions, runs and the shutdown in any order -/

/-- A worker with those who call it: the requests whose submission was let in by the check, those that were
recorded and are to be spawned, what the runs have done, the signed calls on the registry, whether shutdown
has begun and whether it has returned, and, since it has, how many runs there were then and what the runs
have done. -/
structure Front where
  worker : Worker
  letIn : List Request
  recorded : List Request
  log : List Entry
  calls : List (Option Nat × Registry.Turn)
  begun : Bool
  returned : Bool
  spawned : Nat
  since : List Entry

/-- What callers, runs and the shutdown do. -/
inductive Front.Act where
  | check (q : Request)
  | record (q : Request)
  | spawn (q : Request)
  | happens (e : Event)
  | beginShutdown
  /-- The call that shuts down returns that no run is in flight. -/
  | returns

namespace Front

def opening (w : Worker) : Front := ⟨w, [], [], [], [], false, false, 0, []⟩

/-- Whether something may be done: a submission is let in if the worker would take it, and goes on from
there; there is one shutdown, and it returns when it has begun and no run is in flight. -/
def Allows (f : Front) (now : Nat) : Act → Prop
  | .check q => (f.worker.submit now q).isOk = true
  | .record q => q ∈ f.letIn
  | .spawn q => q ∈ f.recorded
  | .happens e => e.isCalm = true
  | .beginShutdown => f.begun = false
  | .returns => f.begun = true ∧ f.returned = false ∧ f.worker.inFlight = 0

instance (f : Front) (now : Nat) : (a : Act) → Decidable (f.Allows now a)
  | .check q => inferInstanceAs (Decidable ((f.worker.submit now q).isOk = true))
  | .record q => inferInstanceAs (Decidable (q ∈ f.letIn))
  | .spawn q => inferInstanceAs (Decidable (q ∈ f.recorded))
  | .happens e => inferInstanceAs (Decidable (e.isCalm = true))
  | .beginShutdown => inferInstanceAs (Decidable (f.begun = false))
  | .returns =>
    inferInstanceAs (Decidable (f.begun = true ∧ f.returned = false ∧ f.worker.inFlight = 0))

def heed (f : Front) (now : Nat) (e : Event) : Front :=
  { f with
    worker := f.worker.heed now e
    log := f.log ++ f.worker.deeds now e
    calls := f.calls ++ f.worker.signedCalls now e
    since := f.since ++ f.worker.deeds now e }

/-- After something was done. -/
def act (f : Front) (now : Nat) : Act → Front
  | .check q => { f with letIn := q :: f.letIn }
  | .record q =>
    { f.heed now (.recordStart q) with letIn := f.letIn.erase q, recorded := q :: f.recorded }
  | .spawn q => { f.heed now (.spawn q true) with recorded := f.recorded.erase q }
  | .happens e => f.heed now e
  | .beginShutdown => { f.heed now .beginShutdown with begun := true }
  | .returns => { f with returned := true, spawned := f.worker.tasks.length, since := [] }

end Front

/-- What can come of a worker, whatever its callers and runs do, and in whatever order. -/
inductive Reaches (w₀ : Worker) : Nat → Front → Prop
  | start (now : Nat) : Reaches w₀ now (.opening w₀)
  | step {now now' : Nat} {f : Front} (h : Reaches w₀ now f) (ht : now ≤ now') (a : Front.Act)
      (ha : f.Allows now' a) : Reaches w₀ now' (f.act now' a)

/-- The event with which the worker takes part in what is done, if it does. -/
def Front.Act.event? : Front.Act → Option Event
  | .check _ | .returns => none
  | .record q => some (.recordStart q)
  | .spawn q => some (.spawn q true)
  | .happens e => some e
  | .beginShutdown => some .beginShutdown

section Fronts

variable {w₀ : Worker} {now : Nat} {f : Front}

theorem isOrderly_of_isCalm {e : Event} (h : e.isCalm = true) : e.isOrderly = true := by
  cases e <;> first | exact h | cases h

/-- **What is done to the worker**: nothing, or something that keeps it in order. -/
theorem Front.act_cases (f : Front) (now : Nat) (a : Front.Act) (ha : f.Allows now a) :
    (a.event? = none ∧ (f.act now a).worker = f.worker ∧ (f.act now a).log = f.log ∧
      (f.act now a).calls = f.calls) ∨
    ∃ e, a.event? = some e ∧ e.isOrderly = true ∧ (f.act now a).worker = f.worker.heed now e ∧
      (f.act now a).log = f.log ++ f.worker.deeds now e ∧
      (f.act now a).calls = f.calls ++ f.worker.signedCalls now e := by
  cases a with
  | check | returns => exact .inl ⟨rfl, rfl, rfl, rfl⟩
  | record | spawn | beginShutdown => exact .inr ⟨_, rfl, rfl, rfl, rfl, rfl⟩
  | happens e => exact .inr ⟨e, rfl, isOrderly_of_isCalm ha, rfl, rfl, rfl⟩

theorem Reaches.history (h : Reaches w₀ now f) :
    ∃ before ≤ now, History (fun _ _ => True) w₀ before f.log f.worker := by
  induction h with
  | start now => exact ⟨now, Nat.le_refl now, .start now⟩
  | @step now now' f h ht a ha ih =>
    obtain ⟨before, hb, hh⟩ := ih
    rcases f.act_cases now' a ha with ⟨-, hw, hl, -⟩ | ⟨e, -, -, hw, hl, -⟩
    · rw [hw, hl]
      exact ⟨before, Nat.le_trans hb ht, hh⟩
    · rw [hw, hl]
      exact ⟨now', Nat.le_refl now', hh.step (Nat.le_trans hb ht) e trivial⟩

theorem Reaches.sound (h : Reaches w₀ now f) (h0 : w₀.tasks = []) (i : Nat) (r : Run)
    (hr : f.worker.run? i = some r) : r.Sound f.worker.setup := by
  obtain ⟨_, _, hh⟩ := h.history
  exact hh.sound h0 hr

theorem Reaches.inOrder (h : Reaches w₀ now f) (h0 : w₀.tasks = []) :
    ∀ (i : Nat) (t : Task), f.worker.tasks[i]? = some t → t.InOrder f.worker.closing := by
  induction h with
  | start =>
    intro i t ht
    simp [Front.opening, h0] at ht
  | @step now now' f h ht a ha ih =>
    rcases f.act_cases now' a ha with ⟨-, hw, -⟩ | ⟨e, -, he, hw, -⟩
    · rw [hw]
      exact ih
    · rw [hw]
      exact inOrder_heed (h.sound h0) ih he

/-- **The registry** is what the calls on it made of it. -/
theorem Reaches.registry (h : Reaches w₀ now f) :
    f.worker.registry = (f.calls.map (·.2)).foldl Registry.Turn.effect w₀.registry := by
  induction h with
  | start => rfl
  | @step now now' f h ht a ha ih =>
    rcases f.act_cases now' a ha with ⟨-, hw, -, hc⟩ | ⟨e, -, -, hw, -, hc⟩
    · rw [hw, hc, ih]
    · rw [hw, hc, heed_registry, ih, List.map_append, signedCalls_unsigned, List.foldl_append]

/-- **The end of a run is recorded once**, and not before it has come. -/
theorem Reaches.callsBy (h : Reaches w₀ now f) (h0 : w₀.tasks = []) (i : Nat) :
    callsBy i f.calls = endCallsOf f.worker.tasks[i]? := by
  induction h with
  | start => simp [Front.opening, h0, endCallsOf, Worker.callsBy]
  | @step now now' f h ht a ha ih =>
    rcases f.act_cases now' a ha with ⟨-, hw, -, hc⟩ | ⟨e, -, he, hw, -, hc⟩
    · rw [hw, hc, ih]
    · rw [hw, hc, callsBy_append, ih, endCallsOf_heed he]

/-- Once shutdown has begun, and all the more once it has returned, the worker takes no more. -/
theorem Reaches.closing (h : Reaches w₀ now f) :
    (f.begun = true → f.worker.closing = true) ∧ (f.returned = true → f.begun = true) := by
  induction h with
  | start => exact ⟨nofun, nofun⟩
  | @step now now' f h ht a ha ih =>
    cases a with
    | check => exact ih
    | record q =>
      have hc : (f.worker.heed now' (.recordStart q)).closing = f.worker.closing := closing_heed nofun
      exact ⟨fun hb => hc.trans (ih.1 hb), ih.2⟩
    | spawn q =>
      have hc : (f.worker.heed now' (.spawn q true)).closing = f.worker.closing := closing_heed nofun
      exact ⟨fun hb => hc.trans (ih.1 hb), ih.2⟩
    | happens e =>
      have hc : (f.worker.heed now' e).closing = f.worker.closing := closing_heed (by rintro rfl; cases ha)
      exact ⟨fun hb => hc.trans (ih.1 hb), ih.2⟩
    | beginShutdown => exact ⟨fun _ => rfl, fun _ => rfl⟩
    | returns => exact ⟨ih.1, fun _ => ha.1⟩

theorem still_of_inFlight {w : Worker} (h : w.inFlight = 0)
    (ho : ∀ (i : Nat) (t : Task), w.tasks[i]? = some t → t.InOrder w.closing) :
    Still w.tasks.length w := by
  refine ⟨fun i hi => ⟨_, List.getElem?_eq_getElem hi⟩, fun i t ht => .inl ?_⟩
  have hn := List.countP_eq_zero.mp h t (List.mem_of_getElem? ht)
  simpa [(ho i t ht).watched] using hn

/-- **Once shutdown has returned** the runs spawned before are over, and the others only read. -/
theorem Reaches.still (h : Reaches w₀ now f) (h0 : w₀.tasks = []) (hr : f.returned = true) :
    Still f.spawned f.worker ∧ ∀ x ∈ f.since, x.Reads := by
  induction h with
  | start => cases hr
  | @step now now' f h ht a ha ih =>
    -- What keeps the worker in order keeps it still.
    have hgo : ∀ e : Event, f.returned = true → e.isOrderly = true →
        Still f.spawned (f.worker.heed now' e) ∧
          ∀ x ∈ f.since ++ f.worker.deeds now' e, x.Reads := by
      intro e hret he
      obtain ⟨hs, hx⟩ := ih hret
      have hc := h.closing.1 (h.closing.2 hret)
      obtain ⟨hs', hx'⟩ := hs.heed now' (h.sound h0) (hc ▸ h.inOrder h0) he
      exact ⟨hs', fun x hm => (List.mem_append.mp hm).elim (hx x) (hx' x)⟩
    cases a with
    | check => exact ih hr
    | record q => exact hgo (.recordStart q) hr rfl
    | spawn q => exact hgo (.spawn q true) hr rfl
    | beginShutdown => exact hgo .beginShutdown hr rfl
    | happens e => exact hgo e hr (isOrderly_of_isCalm ha)
    | returns => exact ⟨still_of_inFlight ha.2.2 (h.inOrder h0), List.forall_mem_nil _⟩

/-! ### Shutdown -/

/-- How the result of run `i` was recorded: by one call on the registry, and what that wrote is read under its
name until something else is written there or an eviction finds it old enough. -/
structure ResultRecorded (f : Front) (i : Nat) (r : Run) (result : Except Run.Failure Run.Report) : Prop where
  once : callsBy i f.calls = [.finished r.name r.request.kind result]
  status : ∀ before x after, f.calls = before ++ (some i, x) :: after →
    (∀ y ∈ after, y.2.Leaves r.name x.time) →
    f.worker.status r.name = some (.ofResult r.request.kind result)

/-- What shutdown leaves of a worker, from when it has returned on. -/
structure Final (w₀ : Worker) (f : Front) : Prop where
  /-- Since then runs have only read their configuration: none has claimed a marker, called the runtime or
  written a state. -/
  since : ∀ x ∈ f.since, x.Reads
  /-- A run that waits for an answer waits for its configuration. -/
  calls : ∀ i r call, f.worker.run? i = some r → r.call? f.worker.setup = some call →
    ∃ owner connector, call = .readConfiguration owner connector
  /-- No marker is left under a name that a run has claimed. -/
  cleared : ∀ x ∈ f.log, x.deed = .claim true →
    f.worker.shared.markers.entries.find? x.name = none
  /-- The registry is what the calls on it made of it. -/
  registry : f.worker.registry = (f.calls.map (·.2)).foldl Registry.Turn.effect w₀.registry
  /-- Every run spawned before has come to its end, and its result was recorded once. -/
  ended : ∀ i < f.spawned, ∃ r result, f.worker.run? i = some r ∧ r.phase = .ended result ∧
    ResultRecorded f i r result

/-- What the one call of a run wrote is read as long as the calls after it leave it. -/
theorem Reaches.resultRecorded (h : Reaches w₀ now f) {i : Nat} {r : Run}
    {result : Except Run.Failure Run.Report}
    (honce : Worker.callsBy i f.calls = [.finished r.name r.request.kind result]) :
    ResultRecorded f i r result := by
  refine ⟨honce, fun before x after hcalls hleaves => ?_⟩
  -- The call is the one that run `i` made.
  have hcall : x.call = .finished r.name r.request.kind result := by
    have hmem : x.call ∈ Worker.callsBy i f.calls :=
      List.mem_map.mpr ⟨(some i, x), List.mem_filter.mpr ⟨by simp [hcalls], by simp⟩, rfl⟩
    rw [honce] at hmem
    exact List.mem_singleton.mp hmem
  have heff : ∀ g, Registry.Turn.effect g x =
      g.record x.time r.name (.ofResult r.request.kind result) := by
    intro g
    simp only [Registry.Turn.effect, hcall]
    rfl
  rw [status, h.registry, hcalls, List.map_append, List.map_cons, List.foldl_append, List.foldl_cons, heff,
    Registry.get, Registry.find?_of_leaves (s := .ofResult r.request.kind result) (t := x.time)]
  · rfl
  · rw [Registry.record, Table.find?_put, if_pos rfl]
  · intro y hy
    obtain ⟨z, hz, rfl⟩ := List.mem_map.mp hy
    exact hleaves z hz

/-- A run that is over or waits for its configuration holds no marker. -/
theorem Still.not_holds {w : Worker} {n i : Nat} {r : Run} (h : Still n w)
    (ho : ∀ (i : Nat) (t : Task), w.tasks[i]? = some t → t.InOrder w.closing)
    (hs : r.Sound w.setup) (hr : w.run? i = some r) : r.holds = false := by
  obtain ⟨t, ht, rfl⟩ := task_of_run? hr
  rcases h.atRest i t ht with hover | ⟨-, hread⟩
  · obtain ⟨result, hp⟩ := (ho i t ht).whole hover
    simp [Run.holds, hp]
  · have hp := hs.place
    simp only [Run.InPlace, hread] at hp
    simp [Run.holds, hread, hp.1]

/-- **Shutdown is final.** Once it has begun nothing more is taken, and once it has returned the worker is
at rest and stays so, whatever callers whose submission was let in before still do. -/
theorem Reaches.final (h : Reaches w₀ now f) (h0 : Idle w₀) :
    (f.begun = true → ∀ now q, f.worker.submit now q = .error .shuttingDown) ∧
      (f.returned = true → Final w₀ f) := by
  refine ⟨fun hb now q => ?_, fun hr => ?_⟩
  · simp [submit, h.closing.1 hb]
  · obtain ⟨hstill, hsince⟩ := h.still h0.tasks hr
    have ho := h.inOrder h0.tasks
    have hsound := h.sound h0.tasks
    obtain ⟨_, _, hh⟩ := h.history
    refine ⟨hsince, fun i r call hrun hcall => ?_, fun x hx hd => ?_, h.registry, fun i hi => ?_⟩
    · obtain ⟨t, ht, rfl⟩ := task_of_run? hrun
      rcases hstill.atRest i t ht with hover | ⟨-, hread⟩
      · obtain ⟨result, hp⟩ := (ho i t ht).whole hover
        simp [Run.call?, hp] at hcall
      · simp only [Run.call?, hread, Option.some.injEq] at hcall
        exact ⟨_, _, hcall.symm⟩
    · obtain ⟨i, hi⟩ := winner_of_mem hx rfl hd
      refine Option.eq_none_iff_forall_ne_some.mpr fun t ht => ?_
      obtain ⟨r, hrun, -, hholds, -⟩ := hh.owned h0 x.name i t hi ht
      rw [hstill.not_holds ho (hsound i r hrun) hrun] at hholds
      cases hholds
    · obtain ⟨t, ht⟩ := hstill.there i hi
      have hover : t.run.isOver = true :=
        (hstill.atRest i t ht).resolve_right fun hl => Nat.not_lt_of_le hl.1 hi
      obtain ⟨result, hp⟩ := (ho i t ht).whole hover
      refine ⟨t.run, result, by simp [run?, ht], hp, h.resultRecorded ?_⟩
      rw [h.callsBy h0.tasks i, ht]
      simp [endCallsOf, Task.endCall?, (ho i t ht).watched, hp]

end Fronts

/-! ### A shutdown between two submissions -/

/-- Whether acts are allowed one after another. -/
def AllAllowed : Front → Nat → List (Nat × Front.Act) → Prop
  | _, _, [] => True
  | f, now, (now', a) :: rest => now ≤ now' ∧ f.Allows now' a ∧ AllAllowed (f.act now' a) now' rest

instance AllAllowed.decidable :
    ∀ (f : Front) (now : Nat) (acts : List (Nat × Front.Act)), Decidable (AllAllowed f now acts)
  | _, _, [] => .isTrue trivial
  | f, now, (now', a) :: rest =>
    have := AllAllowed.decidable (f.act now' a) now' rest
    inferInstanceAs (Decidable (now ≤ now' ∧ f.Allows now' a ∧ _))

def Front.play : Front → List (Nat × Front.Act) → Front :=
  List.foldl fun f (now, a) => f.act now a

theorem Reaches.play {w₀ : Worker} (acts : List (Nat × Front.Act)) {now : Nat} {f : Front}
    (h : Reaches w₀ now f) (ha : AllAllowed f now acts) : ∃ now', Reaches w₀ now' (f.play acts) := by
  induction acts generalizing now f with
  | nil => exact ⟨now, h⟩
  | cons act rest ih => exact ih (h.step ha.1 act.2 ha.2.1) ha.2.2

/-- A run that is told to stop while its container is made, and one whose submission was let in before
shutdown began and that is spawned when it has returned. -/
def shutBetween : List (Nat × Front.Act) :=
  let q := Run.sampleRequest
  let late := { Run.sampleRequest with containerName := "d" }
  [(0, .check q), (0, .record q), (0, .spawn q), (1, .happens (.run 0 (.configuration (.ok [])))),
    (2, .happens (.run 0 .file)), (3, .happens (.run 0 .file)),
    (4, .happens (.run 0 (.container .done))), (5, .check late), (6, .beginShutdown), (6, .record late),
    (7, .happens (.run 0 (.container (.created "id")))), (8, .happens (.run 0 (.container .done))),
    (8, .returns), (9, .spawn late), (10, .happens (.run 1 (.configuration (.ok []))))]

theorem sample_final :
    (AllAllowed (.opening sample) 0 shutBetween ∧ Idle sample) ∧
    ((Front.opening sample).play shutBetween).begun = true ∧
    ((Front.opening sample).play shutBetween).returned = true ∧
    ((Front.opening sample).play shutBetween).spawned = 1 ∧
    ((Front.opening sample).play shutBetween).worker.submit 11 Run.sampleRequest =
      .error .shuttingDown ∧
    Final sample ((Front.opening sample).play shutBetween) := by
  have h0 : Idle sample := ⟨rfl, List.nodup_nil⟩
  have ha : AllAllowed (.opening sample) 0 shutBetween := by decide
  obtain ⟨_, h⟩ := (Reaches.start 0).play shutBetween ha
  have hf := h.final h0
  exact ⟨⟨ha, h0⟩, rfl, rfl, rfl, hf.1 rfl 11 _, hf.2 rfl⟩

end Worker
end RunDispatch
