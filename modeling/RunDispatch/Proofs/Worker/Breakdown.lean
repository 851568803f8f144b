/-
# What becomes of a run that breaks down

A run breaks down when what it called does: the store, the runtime or a file operation. The worker records
that it failed, and that is all. The run gives back its slot and the files that it guarded, but it deletes
no marker and asks for no removal any more: what it held stays as it is.

So the marker of a run that breaks down after its claim refuses every later run of its name until it
expires, and each of them counts as a success. Its container is left without anyone to remove it exactly if
the run breaks down between asking for the container and asking for its removal.

Key definitions: `Container.Stage.isInner`, `Run.unremoved`, `Stuck`, `Unattended`.
Key theorems: `Account.unremoved_iff`, `step_breaks`, `History.refuses`, `History.unattended`.
-/
import RunDispatch.Proofs.Worker.LastWrite

namespace RunDispatch

namespace Container

/-- Whether a container has been asked for at a stage of its life, and its removal has not. -/
def Stage.isInner : Stage → Bool
  | .creating | .starting _ | .waiting _ _ | .draining _ _ | .collecting _ _ => true
  | .pulling | .removing _ | .ended _ => false

end Container

namespace Run

/-- Whether a run waits for an answer about a container that was asked for and is still to be removed. -/
def unremoved (r : Run) : Bool :=
  match r.phase with
  | .living stage => stage.isInner
  | _ => false

/-! ### What the deeds tell -/

section Accounts

variable {setup : Setup} {q : Request} {phase : Phase} {log : List Deed}

/-- Whether a container was asked for. -/
def AsksContainer (log : List Deed) : Prop :=
  ∃ spec e, .called (.container (.create spec)) e ∈ log

/-- Whether the removal of a container was asked for. -/
def AsksRemoval (log : List Deed) : Prop :=
  ∃ name e, .called (.container (.remove name)) e ∈ log

theorem AsksRemoval.append_left {log : List Deed} (h : AsksRemoval log) (more : List Deed) :
    AsksRemoval (log ++ more) := by
  obtain ⟨name, e, hm⟩ := h
  exact ⟨name, e, List.mem_append_left more hm⟩

theorem asksRemoval_of_had {exit : Container.Exit} {l : List Container.Exchange}
    (h : Had setup q (.ended (.ok exit)) l) (before after : List Deed) :
    AsksRemoval (before ++ exchanged l ++ after) := by
  obtain ⟨attached, chunks, rfl⟩ := h
  refine ⟨(specFor q setup.layout).name, .container (Container.removalReply exit.cleanup), ?_⟩
  refine List.mem_append_left _ (List.mem_append_right _ (List.mem_map.mpr
    ⟨(.remove (specFor q setup.layout).name, Container.removalReply exit.cleanup), ?_, rfl⟩))
  exact List.mem_append_right _ (List.mem_singleton_self _)

/-- A run that asks for a removal has asked for it, whatever ends its waiting. -/
theorem asksRemoval_of_call {name : String}
    (h : (inPhase q phase).call? setup = some (.container (.remove name))) (log : List Deed)
    (e : Event) : AsksRemoval (log ++ (inPhase q phase).lastCall setup e) := by
  refine ⟨name, e, List.mem_append_right log ?_⟩
  simp [lastCall, h]

/-- While the container of a run lives, it was asked for without its removal exactly at the stages in
between. -/
theorem unremoved_living_iff {stage : Container.Stage} {l : List Container.Exchange}
    (h : Had setup q stage l) (ho : ∀ x, stage ≠ .ended x) (b : Bytes) (e : Event) :
    (AsksContainer (launching q b ++ exchanged l ++ (inPhase q (.living stage)).lastCall setup e) ∧
      ¬ AsksRemoval (launching q b ++ exchanged l ++ (inPhase q (.living stage)).lastCall setup e)) ↔
    stage.isInner = true := by
  cases stage with
  | ended x => exact absurd rfl (ho x)
  | removing result =>
    have hr : AsksRemoval (launching q b ++ exchanged l ++
        (inPhase q (.living (.removing result))).lastCall setup e) := asksRemoval_of_call rfl _ e
    exact ⟨fun hn => absurd hr hn.2, nofun⟩
  | pulling =>
    cases h
    simp [AsksContainer, launching, read, exchanged, lastCall, call?, inPhase, Container.Stage.ask?,
      Container.Stage.isInner]
  | creating | starting id | waiting id attached | draining id status | collecting id status =>
    cases h
    simp [AsksContainer, AsksRemoval, launching, read, exchanged, lastCall, call?, inPhase,
      Container.Stage.ask?, Container.Stage.isInner, Container.pulled, Container.made, Container.ran,
      Container.waited, start]

/-- **A run that stops for good** after its claim has asked for its container, and not for the removal,
exactly if it waits for an answer about the container in between. -/
theorem Account.unremoved_iff (h : Account setup q phase log) (ho : (inPhase q phase).isOver = false)
    (hc : .claim true ∈ log) (e : Event) :
    (AsksContainer (log ++ (inPhase q phase).lastCall setup e) ∧
      ¬ AsksRemoval (log ++ (inPhase q phase).lastCall setup e)) ↔
    (inPhase q phase).unremoved = true := by
  -- Once the removal was asked for, both sides are false.
  have hasked : AsksRemoval (log ++ (inPhase q phase).lastCall setup e) →
      (inPhase q phase).unremoved = false →
      ((AsksContainer (log ++ (inPhase q phase).lastCall setup e) ∧
        ¬ AsksRemoval (log ++ (inPhase q phase).lastCall setup e)) ↔
      (inPhase q phase).unremoved = true) := by
    intro hr hu
    rw [hu]
    exact ⟨fun hn => absurd hr hn.2, nofun⟩
  cases h with
  | reading => simp at hc
  | queued b | found b => simp [read] at hc
  | staging b place left =>
    simp [AsksContainer, launching, read, lastCall, call?, inPhase, unremoved]
  | living b h hs => exact unremoved_living_iff h hs b e
  | releasing b left h => exact hasked (asksRemoval_of_had h _ _) rfl
  | retrying b h => exact hasked (asksRemoval_of_call rfl _ e) rfl
  | removed b h => exact hasked (asksRemoval_of_had h _ _) rfl
  | triedAgain b h hs cleanup =>
    exact hasked ((asksRemoval_of_had h _ [removal q cleanup]).append_left _) rfl
  | fails b h => exact hasked (asksRemoval_of_call rfl _ e) rfl
  | interrupted h hs e' f hf => exact hasked (asksRemoval_of_call rfl _ e) rfl
  | unread | stopped | unstaged | lacksImage | cleared | stored | broke | dropped => cases ho

theorem delete_not_mem_lastCall {r : Run} {e : Event} : .delete ∉ r.lastCall setup e := by
  cases h : r.call? setup <;> simp [lastCall, h]

theorem Account.undeleted (h : Account setup q phase log)
    (ho : (inPhase q phase).isOver = false) : .delete ∉ log := by
  cases h with
  | reading => exact List.not_mem_nil
  | queued b | found b => simp [read]
  | staging b => simp [launching, read]
  | living b | releasing b | retrying b | removed b | fails b => simp [launching, read, exchanged]
  | triedAgain b => simp [launching, read, exchanged, removal]
  | interrupted h hs e f hf =>
    obtain ⟨b, l, rfl⟩ := h.of_holdsSlot hs
    rw [List.mem_append, not_or]
    exact ⟨by simp [launching, read, exchanged], delete_not_mem_lastCall⟩
  | unread | stopped | unstaged | lacksImage | cleared | stored | broke | dropped => cases ho

end Accounts

/-! ### The step in which a run breaks down -/

/-- **A run that breaks down** leaves the markers alone, and keeps all but the files that it guarded. -/
theorem step_breaks (setup : Setup) {r : Run} (ho : r.isOver = false) (hp : r.heeded .panic = .panic)
    (now : Nat) (s : Shared) :
    (∃ guarded, (r.step setup now s .panic).1.2 = { r with guarded, phase := .broken }) ∧
      (r.step setup now s .panic).1.1.markers = s.markers := by
  simp only [step, hp, react, abandon, ho]
  split
  · rename_i h
    cases h
  · split
    · exact ⟨⟨r.guarded, rfl⟩, rfl⟩
    · split
      · exact ⟨⟨[], rfl⟩, interrupt_markers⟩
      · exact ⟨⟨r.guarded, rfl⟩, rfl⟩

theorem deeds_breaks {setup : Setup} {r : Run} (ho : r.isOver = false) (e : Event)
    (guarded : List Staging.StagedFile) :
    r.deeds setup e { r with guarded, phase := .broken } = r.lastCall setup e := by
  refine deeds_goesOn (fun hph => ?_) rfl ?_
  · simp [isOver, ← hph] at ho
  · rw [holds_of_not_isOver ho]
    rfl

end Run

namespace Worker

section Histories

variable {w₀ w : Worker} {now : Nat} {log : List Entry}

/-! ### A marker that stays -/

/-- A run that is over and holds its marker still, as when it broke down. -/
def Stuck (setup : Run.Setup) (i : Nat) (n : String) (c : Option Nat) (w : Worker) : Prop :=
  ∃ r, w.run? i = some r ∧ r.isOver = true ∧ r.holds = true ∧ r.name = n ∧ r.claimedAt setup = c

/-- **Whatever happens next**, such a run does nothing, and no run of its name wins a claim. -/
theorem History.refuses_next (h : History (Timely true) w₀ now log w) (h0 : Idle w₀) {i : Nat}
    {n : String} {c : Option Nat} (hi : Stuck w₀.setup i n c w) {now' : Nat} (ht : now ≤ now')
    (e : Event) (hP : Timely true now' (w.heed now' e)) :
    Stuck w₀.setup i n c (w.heed now' e) ∧ deedsOf i (w.deeds now' e) = [] ∧
      ∀ x ∈ w.deeds now' e, x.name = n → x.deed ≠ .claim true := by
  obtain ⟨r, hr, ho, hh, hn, hc⟩ := hi
  have hk := (h.step ht e hP).kept h0
  have hch := heed_change w now' e
  generalize w.heed now' e = w' at hk hch ⊢
  generalize w.deeds now' e = entries at hch ⊢
  cases hch with
  | rests hw _ =>
    have hwi := hw i
    rw [hr] at hwi
    generalize hr' : w'.run? i = after at hwi
    cases hwi with
    | stays => exact ⟨⟨r, hr', ho, hh, hn, hc⟩, rfl, List.forall_mem_nil _⟩
    | told => exact ⟨⟨_, hr', ho, hh, hn, hc⟩, rfl, List.forall_mem_nil _⟩
  | acts number t e ht' hto _ hw =>
    have hin : i ≠ number := by
      rintro rfl
      rw [hr] at ht'
      cases ht'
      rw [ho] at hto
      cases hto
    have hr' : w'.run? i = some r := by rw [hw i, if_neg hin, hr]
    refine ⟨⟨r, hr', ho, hh, hn, hc⟩, by rw [deedsOf_map, if_neg hin], ?_⟩
    intro x hx hxn hxc
    obtain ⟨d, hd, rfl⟩ := List.mem_map.mp hx
    cases hxc
    -- The claim would have been won by a second run that holds the name.
    have hm := h.move h0.tasks ht' now' e
    obtain ⟨-, hth, -⟩ := hm.wins (h.sound h0.tasks ht') hd
    have htn : r.name = (t.step w.setup now' w.shared e).1.2.name :=
      hn.trans (hxn.symm.trans (by simp only [Run.name, hm.same.2]))
    exact hin (hk.alone i number r _ hr' (by rw [hw number, if_pos rfl]) (by simp [Run.counted, hh])
      (by simp [Run.counted, hth]) htn)

/-- **As long as the marker has not expired** it refuses every run of its name. -/
theorem History.refuses (events : List (Nat × Event)) (h : History (Timely true) w₀ now log w)
    (h0 : Idle w₀) {i : Nat} {n : String} {c : Option Nat} (hi : Stuck w₀.setup i n c w)
    (hs : Scheduled (Timely true) now w events) :
    ∃ more, (Worker.play (log, w) events).1 = log ++ more ∧ deedsOf i more = [] ∧
      (∀ x ∈ more, x.name = n → x.deed ≠ .claim true) ∧
      Stuck w₀.setup i n c (Worker.play (log, w) events).2 := by
  induction events generalizing now log w with
  | nil => exact ⟨[], (List.append_nil log).symm, rfl, List.forall_mem_nil _, hi⟩
  | cons event rest ih =>
    obtain ⟨ht, hP, hs⟩ := hs
    obtain ⟨hi', hd, hc⟩ := h.refuses_next h0 hi ht event.2 hP
    obtain ⟨more, hm, hdm, hcm, hlast⟩ := ih (h.step ht event.2 hP) hi' hs
    refine ⟨w.deeds event.1 event.2 ++ more, ?_, by rw [deedsOf_append, hd, hdm]; rfl, ?_, hlast⟩
    · rw [← List.append_assoc]
      exact hm
    · intro x hx
      exact (List.mem_append.mp hx).elim (hc x) (hcm x)

/-! ### Runs that broke down -/

/-- What a run that broke down after its claim leaves: what it was when it broke down, the worker just
after, and all that was done and the worker some time later. -/
structure Unattended (i : Nat) (r : Run) (broke : Worker) (log more : List Entry) (later : Worker) :
    Prop where
  /-- The registry says that it broke down. -/
  recorded : broke.status r.name = some (.panicked r.request.kind)
  /-- All that it did when it broke down and ever after was to end its waiting. -/
  ended : deedsOf i more = r.lastCall later.setup .panic
  /-- It has not deleted its marker. -/
  undeleted : .delete ∉ deedsOf i (log ++ more)
  /-- The marker is there, as the run has set it. -/
  marked : ∃ c, r.claimedAt later.setup = some c ∧
    later.shared.markers.entries.find? r.name = some c
  /-- No run of the name has won a claim since. -/
  refused : ∀ x ∈ more, x.name = r.name → x.deed ≠ .claim true
  /-- Its container was asked for, and the removal was not, exactly if it waited in between. -/
  left_iff : (Run.AsksContainer (deedsOf i (log ++ more)) ∧
    ¬ Run.AsksRemoval (deedsOf i (log ++ more))) ↔ r.unremoved = true

/-- The end of a run that broke down is recorded, if it was watched. -/
theorem status_of_breaks {i : Nat} {t : Task} (ht : w.tasks[i]? = some t) (hw : t.watched = true)
    (ho : t.run.isOver = false) (hp : t.run.heeded .panic = .panic) (now : Nat) :
    (w.heed now (.run i .panic)).status t.run.name = some (.panicked t.run.request.kind) := by
  obtain ⟨⟨guarded, hstep⟩, -⟩ := Run.step_breaks w.setup ho hp now w.shared
  have hreg : (w.heed now (.run i .panic)).registry =
      w.registry.panicked now t.run.name t.run.request.kind := by
    have hover : ({ t.run with guarded, phase := .broken } : Run).isOver = true := rfl
    simp only [heed, deliver, ht, ho, hstep, Bool.false_eq_true, if_false, hover, if_true, recordEnd, hw]
    rfl
  rw [status, hreg, Registry.panicked, Registry.get_record, if_pos rfl]

/-- **Nobody looks after what a run held that broke down.** As long as the markers of runs have not
expired, the marker of a run that broke down after its claim stays and refuses its name; and its container
stays if the run asked for it and not yet for the removal. -/
theorem History.unattended {i now' : Nat} {t : Task} {rest : List (Nat × Event)}
    (h : History (Timely true) w₀ now log w) (h0 : Idle w₀) (ht : w.tasks[i]? = some t)
    (hw : t.watched = true) (ho : t.run.isOver = false) (hh : t.run.holds = true)
    (hp : t.run.heeded .panic = .panic)
    (hs : Scheduled (Timely true) now w ((now', .run i .panic) :: rest)) :
    ∃ more, (Worker.play (log, w) ((now', .run i .panic) :: rest)).1 = log ++ more ∧
      Unattended i t.run (w.heed now' (.run i .panic)) log more
        (Worker.play (log, w) ((now', .run i .panic) :: rest)).2 := by
  obtain ⟨hnow, hP, hs⟩ := hs
  have hr : w.run? i = some t.run := by simp [run?, ht]
  obtain ⟨⟨guarded, hstep⟩, -⟩ := Run.step_breaks w.setup ho hp now' w.shared
  obtain ⟨-, hruns, hdeeds⟩ := heed_run hr ho now' .panic
  rw [hp, hstep, Run.deeds_breaks ho] at hdeeds
  have hbroke : Stuck w₀.setup i t.run.name (t.run.claimedAt w₀.setup)
      (w.heed now' (.run i .panic)) :=
    ⟨{ t.run with guarded, phase := .broken }, by rw [hruns i, if_pos rfl, hstep], rfl,
      (Run.claimed_of_holds hh : t.run.claimed = true), rfl, rfl⟩
  have h' := h.step hnow (.run i .panic) hP
  obtain ⟨more, hmore, hnone, hcm, hlast⟩ := h'.refuses rest h0 hbroke hs
  obtain ⟨_, hlater⟩ := h'.play rest hs
  -- Its deeds are those it had done, and the last call.
  have hmine : deedsOf i (w.deeds now' (.run i .panic) ++ more) = t.run.lastCall w.setup .panic := by
    rw [deedsOf_append, hnone, List.append_nil, hdeeds, deedsOf_map, if_pos rfl]
  obtain ⟨s₀, hco⟩ := h.course h0.tasks hr
  have hacc := hco.account
  have hin : (Run.inPhase t.run.request t.run.phase).isOver = false := ho
  have hlc : (Run.inPhase t.run.request t.run.phase).lastCall w₀.setup .panic =
      t.run.lastCall w.setup .panic := by
    rw [h.setup_eq]
    rfl
  refine ⟨w.deeds now' (.run i .panic) ++ more, ?_, ?_⟩
  · rw [← List.append_assoc]
    exact hmore
  · refine ⟨status_of_breaks ht hw ho hp now', ?_, ?_, ?_, ?_, ?_⟩
    · have hset := hlater.setup_eq.trans h.setup_eq.symm
      rw [hmine, ← hset]
      rfl
    · rw [deedsOf_append, hmine, List.mem_append, not_or]
      exact ⟨hacc.undeleted hin, Run.delete_not_mem_lastCall⟩
    · obtain ⟨r', hr', -, hh', hn', hc'⟩ := hlast
      have hmark := (hlater.kept h0).marked i r' hr' (by simp [Run.counted, hh'])
      have hset := hlater.setup_eq
      obtain ⟨c, hc⟩ := (h.sound h0.tasks hr).claimedAt_of_holds hh
      rw [h.setup_eq] at hc
      refine ⟨c, ?_, ?_⟩
      · exact (congrArg t.run.claimedAt hset).trans hc
      · rw [← hn']
        exact hmark.trans ((congrArg r'.claimedAt hset).trans (hc'.trans hc))
    · intro x hx hxn
      rcases List.mem_append.mp hx with hx | hx
      · rw [hdeeds] at hx
        obtain ⟨d, hd, rfl⟩ := List.mem_map.mp hx
        rintro rfl
        exact Run.claim_not_mem_lastCall hd
      · exact hcm x hx hxn
    · rw [deedsOf_append, hmine, ← hlc]
      exact hacc.unremoved_iff hin (hco.claimed hh) .panic

end Histories

/-! ### A run that breaks down while its container starts -/

/-- A run is submitted, has its container made, and breaks down; then another of its name is submitted. -/
def brokenDown : List (Nat × Event) :=
  [(0, .recordStart Run.sampleRequest), (0, .spawn Run.sampleRequest true),
    (1, .run 0 (.configuration (.ok []))), (2, .run 0 .file), (3, .run 0 .file),
    (4, .run 0 (.container .done)), (5, .run 0 (.container (.created "id")))]

def submittedAgain : List (Nat × Event) :=
  [(7, .recordStart Run.sampleRequest), (7, .spawn Run.sampleRequest true),
    (8, .run 1 (.configuration (.ok []))), (9, .run 1 (.stored (.ok ())))]

theorem sample_unattended :
    ∃ t more, (Idle sample ∧ Scheduled (Timely true) 0 sample brokenDown ∧
      (play ([], sample) brokenDown).2.tasks[0]? = some t ∧ t.watched = true ∧
      t.run.isOver = false ∧ t.run.holds = true ∧ t.run.heeded .panic = .panic ∧
      Scheduled (Timely true) 5 (play ([], sample) brokenDown).2
        ((6, .run 0 .panic) :: submittedAgain)) ∧
      (play (play ([], sample) brokenDown) ((6, .run 0 .panic) :: submittedAgain)).1 =
        (play ([], sample) brokenDown).1 ++ more ∧
      Unattended 0 t.run ((play ([], sample) brokenDown).2.heed 6 (.run 0 .panic))
        (play ([], sample) brokenDown).1 more
        (play (play ([], sample) brokenDown) ((6, .run 0 .panic) :: submittedAgain)).2 := by
  have h0 : Idle sample := ⟨rfl, List.nodup_nil⟩
  have hs : Scheduled (Timely true) 0 sample brokenDown := by decide
  have hlate : Scheduled (Timely true) 5 (play ([], sample) brokenDown).2
      ((6, .run 0 .panic) :: submittedAgain) := by decide
  obtain ⟨more, hmore, hu⟩ :=
    ((History.start 0).plays brokenDown hs).unattended h0 rfl rfl rfl rfl rfl hlate
  exact ⟨_, more, ⟨h0, hs, rfl, rfl, rfl, rfl, rfl, hlate⟩, hmore, hu⟩

/-- **A broken run is not compensated.** Its container was asked for and not removed, the marker stays, and
the next run of the same request launches nothing and counts as a success. -/
theorem sample_abandoned :
    let later := play ([], sample) (brokenDown ++ [(6, .run 0 .panic)] ++ submittedAgain)
    Scheduled (Timely true) 0 sample (brokenDown ++ [(6, .run 0 .panic)] ++ submittedAgain) ∧
    (play ([], sample) (brokenDown ++ [(6, .run 0 .panic)])).2.status "c" =
      some (.panicked .check) ∧
    Run.launched (deedsOf 0 later.1) = true ∧ Run.removals (deedsOf 0 later.1) = [] ∧
    later.2.shared.markers.entries.find? "c" = some 1 ∧
    Run.launched (deedsOf 1 later.1) = false ∧
    (later.2.run? 1).map (·.phase) = some (.ended (.ok ⟨"c", .check, .ok, false, false⟩)) := by
  decide

end Worker

end RunDispatch
