/-
# What is reported of a run under way

The registry keeps one status under each name: the last it was told of. It is told that a run begins when
the run is submitted, and how the run ended when it has ended. A running status stays until the next one is
recorded under its name; a terminal one may be forgotten before.

So a run under way is reported as running exactly if no run of its name has ended since the last one was
submitted. Runs of one name that overlap share their entry: the first of them that ends hides the others,
and its status can even be forgotten while they go on.

Key definitions: `lastNotice`, `Registry.Knows`, `Worker.Announced`, `Worker.Said`, `Worker.Standing`.
Key theorems: `Registry.Knows.record`, `Registry.Knows.evict`, `Registry.Knows.turns`, `Worker.heed_task`,
`Worker.Said.play`, `Worker.Said.hidden`, `Worker.reported`.
-/
import Mathlib.Data.List.Induction
import RunDispatch.Http.Service
import RunDispatch.Proofs.Worker.Recorded

namespace RunDispatch

/-- The last status that the registry was told of under a name. -/
def lastNotice (n : String) (told : List Notice) : Option Status :=
  (told.filter (·.1 = n)).getLast?.map (·.2)

theorem lastNotice_append (n : String) (a b : List Notice) :
    lastNotice n (a ++ b) = (lastNotice n b).or (lastNotice n a) := by
  unfold lastNotice
  rw [List.filter_append, List.getLast?_append]
  cases (b.filter (·.1 = n)).getLast? <;> rfl

theorem lastNotice_singleton (n m : String) (s : Status) :
    lastNotice n [(m, s)] = if n = m then some s else none := by
  by_cases h : n = m
  · simp [lastNotice, h]
  · have h' : m ≠ n := fun hm => h hm.symm
    simp [lastNotice, h, h']

/-- The last status under a name is the one after which nothing more is told under it. -/
theorem lastNotice_eq_some_iff {n : String} {s : Status} {told : List Notice} :
    lastNotice n told = some s ↔
      ∃ before after, told = before ++ (n, s) :: after ∧ ∀ x ∈ after, x.1 ≠ n := by
  constructor
  · intro h
    induction told using List.reverseRecOn with
    | nil => cases h
    | append_singleton l x ih =>
      obtain ⟨m, u⟩ := x
      rw [lastNotice_append, lastNotice_singleton] at h
      by_cases hm : n = m
      · subst hm
        rw [if_pos rfl, Option.some_or] at h
        cases h
        exact ⟨l, [], rfl, nofun⟩
      · rw [if_neg hm, Option.none_or] at h
        obtain ⟨before, after, rfl, hafter⟩ := ih h
        refine ⟨before, after ++ [(m, u)], by simp, fun x hx => ?_⟩
        rcases List.mem_append.mp hx with hx | hx
        · exact hafter x hx
        · rw [List.mem_singleton.mp hx]
          exact fun hmn => hm hmn.symm
  · rintro ⟨before, after, rfl, hafter⟩
    have hnone : after.filter (·.1 = n) = [] :=
      List.filter_eq_nil_iff.mpr fun x hx => by simpa using hafter x hx
    simp [lastNotice, hnone]

theorem exists_lastNotice {n : String} {s : Status} {told : List Notice} (h : (n, s) ∈ told) :
    ∃ u, lastNotice n told = some u := by
  unfold lastNotice
  cases hg : (told.filter (·.1 = n)).getLast? with
  | none =>
    have hm := List.filter_eq_nil_iff.mp (List.getLast?_eq_none_iff.mp hg) _ h
    simp at hm
  | some x => exact ⟨x.2, rfl⟩

theorem mem_of_lastNotice {n : String} {s : Status} {told : List Notice}
    (h : lastNotice n told = some s) : (n, s) ∈ told := by
  obtain ⟨before, after, rfl, -⟩ := lastNotice_eq_some_iff.mp h
  exact List.mem_append_right _ List.mem_cons_self

/-! ### The registry -/

namespace Registry

theorem get_evict {g : Registry} (h : g.entries.Proper) (now age : Nat) (n : String) :
    (g.evict now age).2.get n = ((g.entries.find? n).filter (stays now age)).map (·.1) :=
  congrArg (Option.map _) (Table.find?_keep h _ _)

/-- What the registry has under a name is the last it was told of, and it has that if it is not
terminal. -/
structure Knows (g : Registry) (told : List Notice) : Prop where
  proper : g.entries.Proper
  last : ∀ n s, g.get n = some s → lastNotice n told = some s
  running : ∀ n s, lastNotice n told = some s → s.isTerminal = false → g.get n = some s

variable {g : Registry} {told : List Notice}

theorem Knows.empty : Registry.empty.Knows [] :=
  ⟨List.nodup_nil, nofun, nofun⟩

theorem Knows.record (h : g.Knows told) (now : Nat) (n : String) (s : Status) :
    (g.record now n s).Knows (told ++ [(n, s)]) := by
  refine ⟨h.proper.put _ _, fun m u hm => ?_, fun m u hm hu => ?_⟩
  · rw [get_record] at hm
    rw [lastNotice_append, lastNotice_singleton]
    split at hm
    · rename_i hmn
      rw [if_pos hmn, Option.some_or, hm]
    · rename_i hmn
      rw [if_neg hmn, Option.none_or, h.last m u hm]
  · rw [lastNotice_append, lastNotice_singleton] at hm
    rw [get_record]
    split at hm
    · rename_i hmn
      rw [Option.some_or] at hm
      rw [if_pos hmn, hm]
    · rename_i hmn
      rw [Option.none_or] at hm
      rw [if_neg hmn]
      exact h.running m u hm hu

theorem Knows.evict (h : g.Knows told) (now age : Nat) : (g.evict now age).2.Knows told := by
  refine ⟨h.proper.keep _, fun n s hn => ?_, fun n s hn hs => ?_⟩
  · rw [get_evict h.proper] at hn
    obtain ⟨e, he, rfl⟩ := Option.map_eq_some_iff.mp hn
    have hfind := (Option.filter_eq_some_iff.mp he).1
    exact h.last n e.1 (by rw [get, hfind, Option.map_some])
  · obtain ⟨e, he, rfl⟩ := Option.map_eq_some_iff.mp (h.running n s hn hs)
    have hstays : stays now age e = true := by simp [stays, hs]
    rw [get_evict h.proper, he, Option.filter_some, hstays, if_pos rfl, Option.map_some]

/-- The registry knows of what it is told by the calls on it. -/
theorem Knows.turns {turns : List Turn} (h : g.Knows told) :
    (turns.foldl Turn.effect g).Knows (told ++ turns.filterMap Turn.writes?) := by
  induction turns generalizing g told with
  | nil => rwa [List.filterMap_nil, List.append_nil]
  | cons x rest ih =>
    rcases x.effect_cases with ⟨n, s, hx, heff⟩ | ⟨retention, -, hx, heff⟩
    · rw [List.foldl_cons, heff, List.filterMap_cons_some hx, List.append_cons]
      exact ih (h.record x.time n s)
    · rw [List.foldl_cons, heff, List.filterMap_cons_none hx]
      exact ih (h.evict x.time retention)

end Registry

/-! ### How runs end -/

/-- The status of a run that came to its end or broke down. -/
def Run.endStatus? (r : Run) : Option Status :=
  match r.phase with
  | .ended result => some (.ofResult r.request.kind result)
  | .broken => some (.panicked r.request.kind)
  | _ => none

theorem Run.isOver_of_endStatus? {r : Run} {s : Status} (h : r.endStatus? = some s) :
    r.isOver = true := by
  unfold Run.endStatus? at h
  unfold Run.isOver
  split at h <;> simp_all

/-- The call that records the end of a run writes its end status. -/
theorem Task.endStatus?_of_endCall? {t : Task} {c : Registry.Call} {now : Nat} {e : Notice}
    (h : t.endCall? = some c) (he : Registry.Turn.writes? ⟨now, c⟩ = some e) :
    e.1 = t.run.name ∧ t.run.endStatus? = some e.2 := by
  cases hw : t.watched with
  | false => simp [endCall?, hw] at h
  | true =>
    cases hp : t.run.phase with
    | ended result =>
      have hc : Registry.Call.finished t.run.name t.run.request.kind result = c := by
        simpa [endCall?, hw, hp] using h
      cases hc
      cases he
      exact ⟨rfl, by simp [Run.endStatus?, hp]⟩
    | broken =>
      have hc : Registry.Call.panicked t.run.name t.run.request.kind = c := by
        simpa [endCall?, hw, hp] using h
      cases hc
      cases he
      exact ⟨rfl, by simp [Run.endStatus?, hp]⟩
    | _ => simp [endCall?, hw, hp] at h

namespace Worker

/-! ### Submitted runs -/

/-- The requests that something which happens announces. -/
def Event.announces : Event → List Request
  | .recordStart q => [q]
  | _ => []

/-- The request of which something that happens spawns a submitted run. -/
def Event.submits? : Event → Option Request
  | .spawn q true => some q
  | _ => none

/-- Whether every submitted run was announced to the registry before it was spawned. -/
def Announced : List Request → List (Nat × Event) → Prop
  | _, [] => True
  | asked, (_, e) :: rest => (∀ q ∈ e.submits?, q ∈ asked) ∧ Announced (e.announces ++ asked) rest

instance Announced.decidable : ∀ (asked : List Request) (events : List (Nat × Event)),
    Decidable (Announced asked events)
  | _, [] => .isTrue trivial
  | asked, (_, e) :: rest =>
    have := Announced.decidable (e.announces ++ asked) rest
    inferInstanceAs (Decidable ((∀ q ∈ e.submits?, q ∈ asked) ∧ _))

theorem submit_eq {w w' : Worker} {now number : Nat} {q : Request}
    (h : w.submit now q = .ok (w', number)) :
    w' = (w.heed now (.recordStart q)).heed now (.spawn q true) := by
  unfold submit at h
  split at h
  · cases h
  · cases h
    rfl

section Tasks

variable {w : Worker} {now : Nat}

/-- **Where the tasks of a worker come from**: a task was there before, with the same request, or its run
has just been spawned. -/
theorem heed_task {e : Event} {i : Nat} {t : Task} (hs : ∀ i r, w.run? i = some r → r.Sound w.setup)
    (ht : (w.heed now e).tasks[i]? = some t) :
    (∃ t₀, w.tasks[i]? = some t₀ ∧ t.submitted = t₀.submitted ∧ t.run.request = t₀.run.request) ∨
      e = .spawn t.run.request t.submitted := by
  have hset : ∀ number (t₀ u : Task), w.tasks[number]? = some t₀ → u.submitted = t₀.submitted →
      u.run.request = t₀.run.request → (w.tasks.set number u)[i]? = some t →
      ∃ t₀, w.tasks[i]? = some t₀ ∧ t.submitted = t₀.submitted ∧
        t.run.request = t₀.run.request := by
    intro number t₀ u h₀ hus hur hu
    rw [List.getElem?_set] at hu
    split at hu
    · rename_i hi
      split at hu
      · cases hu
        exact ⟨t₀, hi ▸ h₀, hus, hur⟩
      · cases hu
    · exact ⟨t, hu, rfl, rfl⟩
  cases e with
  | recordStart | evict => exact .inl ⟨t, ht, rfl, rfl⟩
  | spawn q submitted =>
    simp only [heed, spawn, List.getElem?_append] at ht
    split at ht
    · exact .inl ⟨t, ht, rfl, rfl⟩
    · rw [List.getElem?_singleton] at ht
      split at ht
      · cases ht
        exact .inr rfl
      · cases ht
  | run number e =>
    simp only [heed, deliver] at ht
    split at ht
    · exact .inl ⟨t, ht, rfl, rfl⟩
    · rename_i t₀ h₀
      split at ht
      · exact .inl ⟨t, ht, rfl, rfl⟩
      · have hm : Run.Move w.setup now w.shared t₀.run (t₀.run.heeded e) _ _ :=
          Run.step_move (hs number t₀.run (by simp [run?, h₀])) e
        exact .inl (hset number t₀ { t₀ with run := (t₀.run.step w.setup now w.shared e).1.2 } h₀ rfl
          hm.same.2 ht)
  | tellToStop number =>
    simp only [heed, tellToStop] at ht
    split at ht
    · exact .inl ⟨t, ht, rfl, rfl⟩
    · rename_i t₀ h₀
      exact .inl (hset number t₀ { t₀ with run.cancelled := true } h₀ rfl rfl ht)
  | forget number =>
    simp only [heed, forget] at ht
    split at ht
    · exact .inl ⟨t, ht, rfl, rfl⟩
    · rename_i t₀ h₀
      exact .inl (hset number t₀ { t₀ with watched := false } h₀ rfl rfl ht)
  | beginShutdown =>
    simp only [heed, beginShutdown, List.getElem?_map] at ht
    obtain ⟨t₀, h₀, rfl⟩ := Option.map_eq_some_iff.mp ht
    exact .inl ⟨t₀, h₀, by split <;> rfl, by split <;> rfl⟩
  | cleanup id =>
    obtain ⟨disk, hw⟩ := heed_cleanup w now id
    rw [hw] at ht
    exact .inl ⟨t, ht, rfl, rfl⟩

/-- A run that is over keeps its end status. -/
theorem heed_ended {j : Nat} {r : Run} {s : Status} (hr : w.run? j = some r)
    (hs : r.endStatus? = some s) (now : Nat) (e : Event) :
    ∃ r', (w.heed now e).run? j = some r' ∧ r'.name = r.name ∧ r'.endStatus? = some s := by
  have hc := heed_change w now e
  generalize w.deeds now e = entries at hc
  cases hc with
  | acts number r₁ _ hr₁ ho _ hw =>
    have hj : j ≠ number := fun hj => by
      subst hj
      rw [hr] at hr₁
      cases hr₁
      rw [Run.isOver_of_endStatus? hs] at ho
      cases ho
    exact ⟨r, by rw [hw j, if_neg hj, hr], rfl, hs⟩
  | rests hw _ =>
    have hwj := hw j
    rw [hr] at hwj
    generalize (w.heed now e).run? j = after at hwj ⊢
    cases hwj with
    | stays => exact ⟨r, rfl, rfl, hs⟩
    | told => exact ⟨_, rfl, rfl, hs⟩

/-- The registry is told of a terminal status by the run whose end it is. -/
theorem ended_of_notices {e : Event} {n : String} {s : Status} (h : (n, s) ∈ w.notices now e)
    (hs : s.isTerminal = true) :
    ∃ j r, (w.heed now e).run? j = some r ∧ r.name = n ∧ r.endStatus? = some s := by
  obtain ⟨_, hx, hw⟩ := List.mem_filterMap.mp h
  obtain ⟨c, hc, rfl⟩ := mem_calls.mp hx
  cases e with
  | recordStart q =>
    cases hc
    cases hw
    cases hs
  | run number e =>
    obtain ⟨t, ht, ho, hend⟩ := run_of_call? hc
    obtain ⟨hname, hstatus⟩ := Task.endStatus?_of_endCall? hend hw
    have hr : w.run? number = some t.run := by simp [run?, ht]
    obtain ⟨-, hrun, -⟩ := heed_run hr ho now e
    exact ⟨number, _, by rw [hrun number, if_pos rfl], hname.symm, hstatus⟩
  | evict =>
    cases hc
    cases hw
  | spawn | tellToStop | forget | beginShutdown | cleanup => cases hc

end Tasks

/-- What the registry is told of is true: submitted runs were announced, and whoever is said to have ended
has. -/
structure Said (asked : List Request) (told : List Notice) (w : Worker) : Prop where
  knows : w.registry.Knows told
  asked : ∀ q ∈ asked, (q.containerName, .running q.kind) ∈ told
  begun : ∀ (i : Nat) (t : Task), w.tasks[i]? = some t → t.submitted = true →
    (t.run.name, .running t.run.request.kind) ∈ told
  ended : ∀ n s, (n, s) ∈ told → s.isTerminal = true →
    ∃ j r, w.run? j = some r ∧ r.name = n ∧ r.endStatus? = some s

/-- What is said stays true. -/
theorem Said.heed {w : Worker} {asked : List Request} {told : List Notice} (h : Said asked told w)
    (hs : ∀ i r, w.run? i = some r → r.Sound w.setup) (now : Nat) {e : Event}
    (ha : ∀ q ∈ e.submits?, q ∈ asked) :
    Said (e.announces ++ asked) (told ++ w.notices now e) (w.heed now e) := by
  refine ⟨?_, fun q hq => ?_, fun i t ht hts => ?_, fun n s hn hterm => ?_⟩
  · rw [heed_registry]
    exact h.knows.turns
  · rcases List.mem_append.mp hq with hq | hq
    · cases e with
      | recordStart q' =>
        rw [List.mem_singleton.mp hq]
        exact List.mem_append_right _ (List.mem_singleton_self _)
      | spawn | run | tellToStop | forget | beginShutdown | evict | cleanup => cases hq
    · exact List.mem_append_left _ (h.asked q hq)
  · refine List.mem_append_left _ ?_
    rcases heed_task hs ht with ⟨t₀, h₀, hsub, hreq⟩ | rfl
    · have := h.begun i t₀ h₀ (hsub ▸ hts)
      simpa only [Run.name, hreq] using this
    · rw [hts] at ha
      exact h.asked _ (ha _ rfl)
  · rcases List.mem_append.mp hn with hn | hn
    · obtain ⟨j, r, hr, hrn, hrs⟩ := h.ended n s hn hterm
      obtain ⟨r', hr', hrn', hrs'⟩ := heed_ended hr hrs now e
      exact ⟨j, r', hr', hrn'.trans hrn, hrs'⟩
    · exact ended_of_notices hn hterm

/-- **What the registry is told of is true** after whatever happened. -/
theorem Said.play {P : Nat → Worker → Prop} {w₀ : Worker} (h0 : w₀.tasks = [])
    (events : List (Nat × Event)) {now : Nat} {log : List Entry} {w : Worker}
    (hh : History P w₀ now log w) {asked : List Request} {told : List Notice}
    (h : Said asked told w) (hs : Scheduled P now w events) (ha : Announced asked events) :
    ∃ asked', Said asked' (told ++ w.noticesOf events) (play (log, w) events).2 := by
  induction events generalizing now log w asked told with
  | nil =>
    exact ⟨asked, (List.append_nil told).symm ▸ h⟩
  | cons event rest ih =>
    rw [noticesOf_cons, ← List.append_assoc]
    exact ih (hh.step hs.1 event.2 hs.2.1) (h.heed (fun _ _ hr => hh.sound h0 hr) event.1 ha.1)
      hs.2.2 ha.2

/-! ### Runs under way -/

/-- How a run under way, number `i` of name `n`, stands in the registry that was told something. -/
structure Standing (told : List Notice) (w : Worker) (i : Nat) (n : String) : Prop where
  /-- It is reported as running exactly if nothing was told under its name since the last start. -/
  running_iff : (∃ kind, w.status n = some (.running kind)) ↔
    ∃ kind, lastNotice n told = some (.running kind)
  /-- Whoever asks is then told so. -/
  answer : ∀ kind now q segment, lastNotice n told = some (.running kind) →
    Http.readSegment segment = .ok n →
    (Http.handleTarget w now q (.run segment)).answer =
      .of 200 (Http.dataContent (Status.running kind).toJson)
  /-- That is so as long as no other run of its name has ended. -/
  alone : (∀ j r, j ≠ i → w.run? j = some r → r.name = n → r.isOver = false) →
    ∃ kind, w.status n = some (.running kind)
  /-- Otherwise another run of its name has ended; its status is reported, or none any more. -/
  hidden : (∀ kind, w.status n ≠ some (.running kind)) →
    ∃ j r s, j ≠ i ∧ w.run? j = some r ∧ r.name = n ∧ r.endStatus? = some s ∧
      s.isTerminal = true ∧ lastNotice n told = some s ∧ (w.status n = some s ∨ w.status n = none)

theorem running_of_not_isTerminal {s : Status} (h : s.isTerminal = false) :
    ∃ kind, s = .running kind := by
  cases s with
  | running kind => exact ⟨kind, rfl⟩
  | completed | failed => cases h

/-- What was said last under the name of a submitted run, if it is not that a run began: the end of another
run of that name, as long as the submitted one is under way. -/
theorem Said.ended_other {asked : List Request} {told : List Notice} {w : Worker}
    (h : Said asked told w) {i : Nat} {t : Task} (ht : w.tasks[i]? = some t)
    (ho : t.run.isOver = false) {s : Status} (hlast : lastNotice t.run.name told = some s)
    (hterm : s.isTerminal = true) :
    ∃ j r, j ≠ i ∧ w.run? j = some r ∧ r.name = t.run.name ∧ r.endStatus? = some s := by
  obtain ⟨j, r, hr, hrn, hrs⟩ := h.ended _ s (mem_of_lastNotice hlast) hterm
  refine ⟨j, r, ?_, hr, hrn, hrs⟩
  rintro rfl
  have hrt : w.run? j = some t.run := by simp [run?, ht]
  rw [hrt] at hr
  cases hr
  rw [Run.isOver_of_endStatus? hrs] at ho
  cases ho

/-- A submitted run under way that is not reported as running: another run of its name has ended, of which
the status is reported, or none any more. -/
theorem Said.hidden {asked : List Request} {told : List Notice} {w : Worker} (h : Said asked told w)
    {i : Nat} {t : Task} (ht : w.tasks[i]? = some t) (hsub : t.submitted = true)
    (ho : t.run.isOver = false) (hn : ∀ kind, w.status t.run.name ≠ some (.running kind)) :
    ∃ j r s, j ≠ i ∧ w.run? j = some r ∧ r.name = t.run.name ∧ r.endStatus? = some s ∧
      s.isTerminal = true ∧ lastNotice t.run.name told = some s ∧
      (w.status t.run.name = some s ∨ w.status t.run.name = none) := by
  obtain ⟨s, hlast⟩ := exists_lastNotice (h.begun i t ht hsub)
  have hterm : s.isTerminal = true := Bool.of_not_eq_false fun hf => by
    obtain ⟨kind, rfl⟩ := running_of_not_isTerminal hf
    exact hn kind (h.knows.running _ _ hlast rfl)
  obtain ⟨j, r, hj, hr, hrn, hrs⟩ := h.ended_other ht ho hlast hterm
  refine ⟨j, r, s, hj, hr, hrn, hrs, hterm, hlast, ?_⟩
  cases hst : w.status t.run.name with
  | none => exact .inr rfl
  | some u => exact .inl (by rw [← h.knows.last _ u hst, hlast])

/-- **How runs under way are reported.** A submitted run that is not over is reported as running exactly if
no run of its name has ended since the last one was submitted. -/
theorem reported {P : Nat → Worker → Prop} {w₀ : Worker} {now : Nat} {events : List (Nat × Event)}
    (h0 : w₀.tasks = []) (hg : w₀.registry = .empty) (hs : Scheduled P now w₀ events)
    (ha : Announced [] events) {i : Nat} {t : Task}
    (ht : (play ([], w₀) events).2.tasks[i]? = some t) (hsub : t.submitted = true)
    (ho : t.run.isOver = false) :
    Standing (w₀.noticesOf events) (play ([], w₀) events).2 i t.run.name := by
  have hsaid₀ : Said [] [] w₀ :=
    ⟨hg ▸ .empty, nofun, fun i t ht => by simp [h0] at ht, nofun⟩
  obtain ⟨asked, hsaid⟩ := hsaid₀.play h0 events (.start now) hs ha
  rw [List.nil_append] at hsaid
  generalize (play ([], w₀) events).2 = w at *
  generalize w₀.noticesOf events = told at *
  have hrun : ∀ kind, lastNotice t.run.name told = some (.running kind) →
      w.status t.run.name = some (.running kind) :=
    fun kind hk => hsaid.knows.running _ _ hk rfl
  constructor
  · exact ⟨fun ⟨kind, hk⟩ => ⟨kind, hsaid.knows.last _ _ hk⟩, fun ⟨kind, hk⟩ => ⟨kind, hrun kind hk⟩⟩
  · intro kind now q segment hk hseg
    simp only [Http.handleTarget, hseg, Http.unchanged, Http.tellStatus, hrun kind hk]
  · intro halone
    refine Classical.byContradiction fun hn => ?_
    obtain ⟨j, r, s, hj, hr, hrn, hrs, -⟩ :=
      hsaid.hidden ht hsub ho fun kind hk => hn ⟨kind, hk⟩
    have hover := halone j r hj hr hrn
    rw [Run.isOver_of_endStatus? hrs] at hover
    cases hover
  · exact hsaid.hidden ht hsub ho

/-- Two runs of one name are submitted; the second finds the marker of the first, and ends before it. -/
def overlapping : List (Nat × Event) :=
  [(0, .recordStart Run.sampleRequest), (0, .spawn Run.sampleRequest true),
    (1, .run 0 (.configuration (.ok []))), (2, .recordStart Run.sampleRequest),
    (2, .spawn Run.sampleRequest true), (3, .run 1 (.configuration (.ok []))),
    (4, .run 1 (.stored (.ok ())))]

/-- Before the second of two runs ends both are reported as running. -/
theorem sample_reported :
    (sample.tasks = [] ∧ sample.registry = .empty ∧
      Scheduled (fun _ _ => True) 0 sample (overlapping.take 6) ∧
      Announced [] (overlapping.take 6)) ∧
    ∃ t, (play ([], sample) (overlapping.take 6)).2.tasks[0]? = some t ∧ t.submitted = true ∧
      t.run.isOver = false ∧
      Standing (sample.noticesOf (overlapping.take 6)) (play ([], sample) (overlapping.take 6)).2 0
        t.run.name := by
  have hs : Scheduled (fun _ _ => True) 0 sample (overlapping.take 6) := by decide
  have ha : Announced [] (overlapping.take 6) := by decide
  exact ⟨⟨rfl, rfl, hs, ha⟩, _, rfl, rfl, rfl, reported rfl rfl hs ha rfl rfl rfl⟩

/-- **A run under way that is not reported as running**: once the second of two runs has ended, its status
is reported while the first goes on, and then none at all. -/
theorem sample_hidden :
    Scheduled (fun _ _ => True) 0 sample (overlapping ++ [(3000, .evict)]) ∧
    Announced [] (overlapping ++ [(3000, .evict)]) ∧
    (∀ last ∈ [[], [(3000, Event.evict)]],
      ((play ([], sample) (overlapping ++ last)).2.tasks[0]?.map fun t =>
        (t.submitted, t.run.name, t.run.isOver)) = some (true, "c", false)) ∧
    (play ([], sample) overlapping).2.status "c" = some (.completed ⟨"c", .check, .ok, false, false⟩) ∧
    (play ([], sample) (overlapping ++ [(3000, .evict)])).2.status "c" = none := by
  decide

end Worker
end RunDispatch
