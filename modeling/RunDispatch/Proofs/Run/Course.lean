/-
# The course of a run

A run is not alone: between its steps others change what runs share, and it may be told to stop. Its
course is all this in some order, with the deeds of the run, from its start on.

What a run has done by the time it is in a phase is told by that phase: its account. Every way to an end
is one of the account's, so what holds of a run's deeds is read off it case by case, whatever the
store, the files and the runtime answered and whenever the run was interrupted.

Key definitions: `Course`, `Account`.
Key theorems: `Account.next`, `Course.account`, `Course.sound`.
-/
import RunDispatch.Proofs.Container.Told
import RunDispatch.Proofs.Run.Deeds

namespace RunDispatch
namespace Run

/-- The course of run `number` with request `q` from what was shared at its start: its deeds, what is
shared, and the run. The steps of `others` come in between. -/
inductive Course (setup : Setup) (others : Shared → Shared → Prop) (number : Nat) (q : Request)
    (s₀ : Shared) : List Deed → Shared → Run → Prop
  | start : Course setup others number q s₀ [] s₀ (start number q)
  | told {log : List Deed} {s : Shared} {r : Run} (h : Course setup others number q s₀ log s r) :
      Course setup others number q s₀ log s { r with cancelled := true }
  | step {log : List Deed} {s : Shared} {r : Run} (h : Course setup others number q s₀ log s r)
      (now : Nat) (e : Event) :
      Course setup others number q s₀
        (log ++ r.deeds setup (r.heeded e) (r.step setup now s e).1.2)
        (r.step setup now s e).1.1 (r.step setup now s e).1.2
  | meanwhile {log : List Deed} {s s' : Shared} {r : Run}
      (h : Course setup others number q s₀ log s r) (ho : others s s') :
      Course setup others number q s₀ log s' r

/-- A run after events at their times, its deeds after those it had done, and what is then shared. -/
def play (setup : Setup) :
    List Deed × Shared × Run → List (Nat × Event) → List Deed × Shared × Run :=
  List.foldl fun (log, s, r) (now, e) =>
    let ((s', r'), _) := r.step setup now s e
    (log ++ r.deeds setup (r.heeded e) r', s', r')

/-- A run that is played takes its course. -/
theorem Course.play {setup : Setup} {others : Shared → Shared → Prop} {number : Nat} {q : Request}
    {s₀ : Shared} (events : List (Nat × Event)) {log : List Deed} {s : Shared} {r : Run}
    (h : Course setup others number q s₀ log s r) :
    Course setup others number q s₀ (Run.play setup (log, s, r) events).1
      (Run.play setup (log, s, r) events).2.1 (Run.play setup (log, s, r) events).2.2 := by
  induction events generalizing log s r with
  | nil => exact h
  | cons event rest ih => exact ih (h.step event.1 event.2)

def sampleRequest : Request :=
  ⟨"o", ⟨List.replicate 32 ⟨0, Nat.zero_lt_succ 15⟩, List.length_replicate⟩, ⟨"i", "t"⟩, "c", .check,
    none, none⟩

def sampleSetup : Setup := ⟨"r", .bind "r", 1000, 10⟩

def sampleShared : Shared := ⟨.empty 2000, .sound .empty, ⟨2, [], []⟩⟩

def sample (events : List (Nat × Event)) : List Deed × Shared × Run :=
  Run.play sampleSetup ([], sampleShared, Run.start 0 sampleRequest) events

/-- A part of what is shared is as others have made it: what they keep true of it is true still. -/
def AsOthersMade (others : Shared → Shared → Prop) {α : Type} (part : Shared → α) (s₀ s : Shared) :
    Prop :=
  ∀ p : α → Prop, (∀ s t, others s t → p (part s) → p (part t)) → p (part s₀) → p (part s)

/-! ### Accounts -/

section Account

variable (setup : Setup) (q : Request)

/-- The configuration was read. -/
def read (configuration : Bytes) : Deed :=
  .called (.readConfiguration q.owner q.connector) (.configuration (.ok configuration))

/-- What a run did that claimed its marker. -/
def launching (configuration : Bytes) : List Deed := [read q configuration, .claim true]

/-- The exchanges with the runtime while the container lived. -/
def exchanged (l : List Container.Exchange) : List Deed :=
  l.map fun e => .called (.container e.1) (.container e.2)

/-- The container was to be removed once more. -/
def removal (cleanup : Option Container.Failure) : Deed :=
  .called (.container (.remove q.containerName)) (.container (Container.removalReply cleanup))

/-- The connectivity was to be stored. -/
def write (finding : Finding) (result : Except StoreError Unit) : Deed :=
  .called (.writeState q.owner q.connector finding.outcome.connectivity) (.stored result)

/-- The connectivity was to be stored, and then the marker was deleted, if the run held it. -/
def settling (finding : Finding) (result : Except StoreError Unit) : List Deed :=
  write q finding result :: if finding.dispatched then [.delete] else []

def inPhase (phase : Phase) : Run := { start 0 q with phase }

/-- The exchanges up to a stage of the container of the request. -/
abbrev Had (stage : Container.Stage) (l : List Container.Exchange) : Prop :=
  Container.Told (specFor q setup.layout) q.records stage l

/-- What becomes of a run that stores what it found. -/
def verdict (finding : Finding) : Except StoreError Unit → Except Failure Report
  | .ok () => .ok (report (inPhase q .reading) finding)
  | .error e => .error (.stale q.containerName finding.outcome e)

/-- What a run of the request has done by the time it is in a phase. -/
inductive Account : Phase → List Deed → Prop
  | reading : Account .reading []
  | queued (b : Bytes) : Account (.queued b) [read q b]
  | staging (b : Bytes) (place : StagingStep) (left : List Staging.Payload) :
      Account (.staging place left) (launching q b)
  | living (b : Bytes) {stage : Container.Stage} {l : List Container.Exchange}
      (h : Had setup q stage l) (ho : ∀ x, stage ≠ .ended x) :
      Account (.living stage) (launching q b ++ exchanged l)
  | releasing (b : Bytes) (left : List Staging.StagedFile) {exit : Container.Exit}
      {l : List Container.Exchange} (h : Had setup q (.ended (.ok exit)) l) :
      Account (.releasing left exit) (launching q b ++ exchanged l)
  | retrying (b : Bytes) {exit : Container.Exit} {l : List Container.Exchange}
      (h : Had setup q (.ended (.ok exit)) l) (hc : exit.cleanup.isSome = true) :
      Account (.retrying exit) (launching q b ++ exchanged l)
  /-- Another run is dispatched under the name. -/
  | found (b : Bytes) : Account (.recording ⟨.ok, false, false⟩) [read q b, .claim false]
  /-- The container was removed at once. -/
  | removed (b : Bytes) {exit : Container.Exit} {l : List Container.Exchange}
      (h : Had setup q (.ended (.ok exit)) l) (hc : exit.cleanup = none) :
      Account (.recording ⟨.ofExitStatus exit.status, true, false⟩) (launching q b ++ exchanged l)
  /-- The container was to be removed a second time. -/
  | triedAgain (b : Bytes) {exit : Container.Exit} {l : List Container.Exchange}
      (h : Had setup q (.ended (.ok exit)) l) (hc : exit.cleanup.isSome = true)
      (cleanup : Option Container.Failure) :
      Account (.recording ⟨.ofExitStatus exit.status, true, cleanup.isSome⟩)
        (launching q b ++ exchanged l ++ [removal q cleanup])
  | fails (b : Bytes) {f : Container.Failure} {l : List Container.Exchange}
      (h : Had setup q (.ended (.error f)) l) (hf : f.isPull = false) :
      Account (.compensating (.container f)) (launching q b ++ exchanged l)
  /-- The run was told to stop, or its time was up, while it had its slot. -/
  | interrupted {phase : Phase} {log : List Deed} (h : Account phase log)
      (hs : (inPhase q phase).holdsSlot = true) (e : Event) (f : Failure)
      (hf : f = .cancelled q.containerName ∨ f = .timeout q.containerName setup.activityTimeout) :
      Account (.compensating f) (log ++ (inPhase q phase).lastCall setup e)
  | unread (e : StoreError) : Account (.ended (.error (.store e)))
      [.called (.readConfiguration q.owner q.connector) (.configuration (.error e))]
  | stopped (b : Bytes) : Account (.ended (.error (.cancelled q.containerName))) [read q b]
  | unstaged (b : Bytes) (e : Staging.StagingError) :
      Account (.ended (.error (.staging e))) (launching q b ++ [.delete])
  | lacksImage (b : Bytes) {f : Container.Failure} {l : List Container.Exchange}
      (h : Had setup q (.ended (.error f)) l) (hf : f.isPull = true) :
      Account (.ended (.error (.container f))) (launching q b ++ exchanged l ++ [.delete])
  | cleared {f : Failure} {log : List Deed} (h : Account (.compensating f) log)
      (cleanup : Option Container.Failure) :
      Account (.ended (.error f)) (log ++ [removal q cleanup, .delete])
  | stored {finding : Finding} {log : List Deed} (h : Account (.recording finding) log)
      (result : Except StoreError Unit) :
      Account (.ended (verdict q finding result))
        (log ++ settling q finding result)
  | broke {phase : Phase} {log : List Deed} (h : Account phase log) (e : Event) :
      Account .broken (log ++ (inPhase q phase).lastCall setup e)
  | dropped {phase : Phase} {log : List Deed} (h : Account phase log) (e : Event) :
      Account .dropped (log ++ (inPhase q phase).lastCall setup e)

end Account

section Steps

variable {setup : Setup} {now : Nat} {s s' : Shared} {r r' : Run} {e : Event} {log : List Deed}

theorem Account.goesOn (hp : r'.phase = r.phase → r.call? setup = none)
    (hd : r'.deadline = r.deadline) (hh : r'.holds = r.holds)
    (h : Account setup r.request r'.phase (log ++ r.lastCall setup e)) :
    Account setup r.request r'.phase (log ++ r.deeds setup e r') := by
  rw [deeds_goesOn hp hd hh]
  exact h

theorem Account.ends (hp : r'.phase ≠ r.phase) (hd : r'.deadline = r.deadline)
    (hh : r.holds = true) (hh' : r'.holds = false)
    (h : Account setup r.request r'.phase (log ++ r.lastCall setup e ++ [.delete])) :
    Account setup r.request r'.phase (log ++ r.deeds setup e r') := by
  rw [deeds_ends hp hd hh hh', ← List.append_assoc]
  exact h

theorem Account.claims (hp : r'.phase ≠ r.phase) (hd : r.deadline = none)
    (hd' : r'.deadline.isSome = true) (hh : r.holds = false)
    (h : Account setup r.request r'.phase (log ++ r.lastCall setup e ++ [.claim r'.claimed])) :
    Account setup r.request r'.phase (log ++ r.deeds setup e r') := by
  rw [deeds_claims hp hd hd' hh, ← List.append_assoc]
  exact h

theorem Account.admitted {b : Bytes} {slots : Slots} (h : Account setup r.request r.phase log)
    (ha : Admitted s r e b slots) : log ++ r.lastCall setup e = [read r.request b] := by
  rcases ha with ⟨hr, rfl, -⟩ | ⟨hr, rfl, -⟩
  all_goals
    rw [hr] at h
    cases h
    simp only [lastCall, call?, hr]
    rfl

theorem lastCall_living {stage : Container.Stage} (hr : r.phase = .living stage) {ask : Container.Ask}
    (ha : stage.ask? (specFor r.request setup.layout) r.request.records = some ask) :
    r.lastCall setup e = [.called (.container ask) e] := by
  simp [lastCall, call?, hr, ha]

/-- A reply that ends the waiting for the runtime is one exchange more. -/
theorem exchanged_next {stage : Container.Stage} (hr : r.phase = .living stage)
    {l : List Container.Exchange} (h : Had setup r.request stage l) {reply : Container.Reply}
    (hne : (stage.next reply).1 ≠ stage) :
    ∃ l', Had setup r.request (stage.next reply).1 l' ∧
      exchanged l ++ r.lastCall setup (.container reply) = exchanged l' := by
  cases ha : stage.ask? (specFor r.request setup.layout) r.request.records with
  | none =>
    cases stage <;> simp [Container.Stage.ask?] at ha
    exact absurd rfl hne
  | some ask =>
    refine ⟨_, Container.told_next h ha reply hne, ?_⟩
    rw [lastCall_living hr ha]
    simp [exchanged]

theorem Account.of_staging {place : StagingStep} {left : List Staging.Payload}
    (h : Account setup r.request r.phase log) (hr : r.phase = .staging place left) (e : Event) :
    ∃ b, log ++ r.lastCall setup e = launching r.request b := by
  rw [hr] at h
  cases h with
  | staging b => exact ⟨b, by simp [lastCall, call?, hr]⟩

/-- A run whose container's life goes on, or ends, has had one more exchange with the runtime. -/
theorem Account.of_living {stage : Container.Stage} (h : Account setup r.request r.phase log)
    (hr : r.phase = .living stage) {reply : Container.Reply}
    (hn : (stage.next reply).1 ≠ stage ∨ ∃ x, (stage.next reply).1 = .ended x) :
    ∃ b l, Had setup r.request (stage.next reply).1 l ∧
      log ++ r.lastCall setup (.container reply) = launching r.request b ++ exchanged l := by
  rw [hr] at h
  cases h with
  | living b h ho =>
    have hne : (stage.next reply).1 ≠ stage := by
      rcases hn with hn | ⟨x, hx⟩
      · exact hn
      · rw [hx]
        exact (ho x).symm
    obtain ⟨l, hl, hx⟩ := exchanged_next hr h hne
    exact ⟨b, l, hl, by rw [List.append_assoc, hx]⟩

theorem Account.of_releasing {left : List Staging.StagedFile} {exit : Container.Exit}
    (h : Account setup r.request r.phase log) (hr : r.phase = .releasing left exit) (e : Event) :
    ∃ b l, Had setup r.request (.ended (.ok exit)) l ∧
      log ++ r.lastCall setup e = launching r.request b ++ exchanged l := by
  rw [hr] at h
  cases h with
  | releasing b _ h => exact ⟨b, _, h, by simp [lastCall, call?, hr]⟩

/-- A run that stops for good has done nothing more than end its waiting. -/
theorem Account.breaksOff (h : Account setup r.request r.phase log) {phase : Phase}
    (he : fatal? e = some phase) (ho : r.isOver = false) (guarded : List Staging.StagedFile) :
    Account setup r.request phase (log ++ r.deeds setup e { r with guarded, phase }) := by
  have hp : phase ≠ r.phase := by
    rintro rfl
    rcases eq_of_fatal he with hp | hp <;> simp [isOver, hp] at ho
  have hh : ({ r with guarded, phase } : Run).holds = r.holds := by
    rw [holds_of_not_isOver ho]
    rcases eq_of_fatal he with rfl | rfl <;> rfl
  have hd : ({ r with guarded, phase } : Run).deadline = r.deadline := rfl
  refine Account.goesOn (fun hph => absurd hph hp) hd hh ?_
  rcases eq_of_fatal he with rfl | rfl
  · exact .broke h e
  · exact .dropped h e

/-- **One more step.** What a run has done after a move is told by its new phase. -/
theorem Account.next (h : Account setup r.request r.phase log) (hs : r.Sound setup)
    (hm : Move setup now s r e s' r') :
    Account setup r.request r'.phase (log ++ r.deeds setup e r') := by
  have hp := hs.place
  unfold InPlace at hp
  cases hm with
  | stays =>
    rw [deeds_self, List.append_nil]
    exact h
  | notes =>
    rw [deeds_told, List.append_nil]
    exact h
  | unread hr e =>
    rw [hr] at h
    simp only [hr] at hp
    cases h
    refine Account.goesOn (by simp [finish, hr]) rfl (by simp [holds, finish, hr, hp.1]) ?_
    simp only [lastCall, call?, hr]
    exact .unread e
  | stopsEarly hr b =>
    rw [hr] at h
    simp only [hr] at hp
    cases h
    refine Account.goesOn (by simp [finish, hr]) rfl (by simp [holds, finish, hr, hp.1]) ?_
    simp only [lastCall, call?, hr]
    exact .stopped b
  | waits hr b =>
    rw [hr] at h
    cases h
    refine Account.goesOn (by simp [hr]) rfl (by simp [holds, hr]) ?_
    simp only [lastCall, call?, hr]
    exact .queued b
  | stopsWaiting b hr =>
    rw [hr] at h
    simp only [hr] at hp
    cases h
    refine Account.goesOn (by simp [hr]) rfl (by simp [holds, hr, hp.1]) ?_
    simp only [lastCall, call?, hr]
    exact .stopped b
  | finds e b slots ha =>
    have hr : r.claimed = false ∧ r.holds = false ∧ r.deadline = none := by
      rcases ha with ⟨hr, -⟩ | ⟨hr, -⟩ <;> (simp only [hr] at hp; simp [holds, hr, hp])
    refine Account.claims (by rcases ha with ⟨hr, -⟩ | ⟨hr, -⟩ <;> simp [hr]) hr.2.2 rfl hr.2.1 ?_
    rw [h.admitted ha, hr.1]
    exact .found b
  | claims e b slots ha =>
    have hr : r.holds = false ∧ r.deadline = none := by
      rcases ha with ⟨hr, -⟩ | ⟨hr, -⟩ <;> (simp only [hr] at hp; simp [holds, hr, hp])
    refine Account.claims (by rcases ha with ⟨hr, -⟩ | ⟨hr, -⟩ <;> simp [hr]) hr.2 rfl hr.1 ?_
    rw [h.admitted ha]
    exact .staging b _ _
  | prepares place next left hr hl =>
    obtain ⟨b, hb⟩ := h.of_staging hr .file
    refine Account.goesOn (by simp [call?, hr]) rfl (by simp [holds, hr]) ?_
    rw [hb]
    exact .staging b _ _
  | stages place next kind content rest hr hne reused =>
    obtain ⟨b, hb⟩ := h.of_staging hr .file
    refine Account.goesOn (by simp [call?, hr]) rfl (by simp [holds, hr]) ?_
    rw [hb]
    exact .staging b _ _
  | launches place kind content hr reused =>
    obtain ⟨b, hb⟩ := h.of_staging hr .file
    refine Account.goesOn (by simp [call?, hr]) rfl (by simp [holds, hr]) ?_
    rw [hb]
    exact .living b (l := []) rfl fun x hx => by cases hx
  | cannotStage place left hr e =>
    simp only [hr] at hp
    obtain ⟨b, hb⟩ := h.of_staging hr .file
    refine Account.ends (by simp [hr]) rfl (by simp [holds, hr, hp]) rfl ?_
    rw [hb]
    exact .unstaged b e
  | lives stage next hr reply hn hne hl =>
    subst hn
    obtain ⟨b, l, hb, hx⟩ := h.of_living hr (.inl hne)
    refine Account.goesOn (by simp [hr, hne]) rfl (by simp [holds, hr]) ?_
    rw [hx]
    exact .living b hb hl
  | fails stage hr reply f hn hf =>
    obtain ⟨b, l, hb, hx⟩ := h.of_living hr (.inr ⟨_, hn⟩)
    refine Account.goesOn (by simp [hr]) rfl (by simp [holds, hr]) ?_
    rw [hx]
    exact .fails b (hn ▸ hb) hf
  | lacksImage stage hr reply f hn hf =>
    simp only [hr] at hp
    obtain ⟨b, l, hb, hx⟩ := h.of_living hr (.inr ⟨_, hn⟩)
    refine Account.ends (by simp [hr]) rfl (by simp [holds, hr, hp]) rfl ?_
    rw [hx]
    exact .lacksImage b (hn ▸ hb) hf
  | exits stage hr reply exit hn =>
    obtain ⟨b, l, hb, hx⟩ := h.of_living hr (.inr ⟨_, hn⟩)
    refine Account.goesOn (by simp [hr]) rfl (by simp [holds, hr]) ?_
    rw [hx]
    exact .releasing b _ (hn ▸ hb)
  | releases file rest exit hr =>
    obtain ⟨b, l, hb, hx⟩ := h.of_releasing hr .file
    refine Account.goesOn (by simp [call?, hr]) rfl (by simp [holds, hr]) ?_
    rw [hx]
    exact .releasing b rest hb
  | retries file exit hr hc =>
    obtain ⟨b, l, hb, hx⟩ := h.of_releasing hr .file
    refine Account.goesOn (by simp [call?, hr]) rfl (by simp [holds, hr]) ?_
    rw [hx]
    exact .retrying b hb hc
  | finishes file exit hr hc =>
    obtain ⟨b, l, hb, hx⟩ := h.of_releasing hr .file
    refine Account.goesOn (by simp [call?, hr]) rfl (by simp [holds, hr]) ?_
    rw [hx]
    exact .removed b hb hc
  | retried exit hr reply finding hf =>
    rw [hr] at h
    cases h with
    | retrying b h hc =>
      refine Account.goesOn (by simp [hr]) rfl (by simp [holds, hr]) ?_
      simp only [lastCall, call?, hr]
      cases reply with
      | done =>
        cases hf
        exact .triedAgain b h hc none
      | failed f =>
        cases hf
        exact .triedAgain b h hc (some f)
      | created | started | exited | collected => cases hf
  | records finding hr result =>
    rw [hr] at h
    simp only [hr] at hp
    have hm : (recorded s r finding result).2 = r.finish (verdict r.request finding result) := by
      cases result <;> rfl
    rw [hm]
    have hw : r.lastCall setup (.stored result) = [write r.request finding result] := by
      simp only [lastCall, call?, hr]
      rfl
    cases hc : finding.dispatched with
    | false =>
      refine Account.goesOn (by simp [finish, hr]) rfl (by simp [holds, finish, hr, hp, hc]) ?_
      rw [hw]
      have := Account.stored h result
      rwa [settling, hc] at this
    | true =>
      refine Account.ends (by simp [finish, hr]) rfl (by simp [holds, hr, hp, hc]) rfl ?_
      rw [hw, List.append_assoc]
      have := Account.stored h result
      rwa [settling, hc] at this
  | clears f hr reply ha =>
    rw [hr] at h
    simp only [hr] at hp
    refine Account.ends (by simp [finish, hr]) rfl (by simp [holds, hr, hp]) rfl ?_
    simp only [lastCall, call?, hr, List.append_assoc]
    rcases ha with rfl | ⟨g, rfl⟩
    · exact .cleared h none
    · exact .cleared h (some g)
  | stops hh =>
    refine Account.goesOn (fun hph => ?_) rfl (holds_of_holdsSlot hh).symm
      (.interrupted h hh _ _ (.inl rfl))
    simp [holdsSlot, ← hph] at hh
  | timesOut hh =>
    refine Account.goesOn (fun hph => ?_) rfl (holds_of_holdsSlot hh).symm
      (.interrupted h hh _ _ (.inr rfl))
    simp [holdsSlot, ← hph] at hh
  | breaksWaiting e phase he b hr => exact h.breaksOff he (by simp [isOver, hr]) _
  | breaksInSlot e phase he hh => exact h.breaksOff he (not_isOver_of_holdsSlot hh) _
  | breaks e phase he ho => exact h.breaksOff he ho _

end Steps

/-! ### What accounts have in common -/

section Accounts

variable {setup : Setup} {q : Request} {phase : Phase} {log : List Deed}

theorem claim_mem_launching (b : Bytes) (l : List Deed) : .claim true ∈ launching q b ++ l := by
  simp [launching]

/-- A run in its slot has claimed its marker, and then done nothing but ask the runtime. -/
theorem Account.of_holdsSlot (h : Account setup q phase log)
    (hs : (inPhase q phase).holdsSlot = true) :
    ∃ b l, log = launching q b ++ exchanged l := by
  cases h with
  | staging b => exact ⟨b, [], by simp [exchanged]⟩
  | living b => exact ⟨b, _, rfl⟩
  | releasing b => exact ⟨b, _, rfl⟩
  | _ => simp [inPhase, holdsSlot] at hs

theorem Account.claimed_of_asks (h : Account setup q phase log) {ask : Container.Ask}
    (ha : (inPhase q phase).call? setup = some (.container ask)) : .claim true ∈ log := by
  cases h with
  | living b => exact claim_mem_launching b _
  | retrying b => exact claim_mem_launching b _
  | fails b => exact claim_mem_launching b _
  | interrupted h hs =>
    obtain ⟨b, l, rfl⟩ := h.of_holdsSlot hs
    exact List.mem_append_left _ (claim_mem_launching b _)
  | _ => simp [inPhase, call?] at ha

/-- What a run compensates: a failure of its container other than the lack of an image, that it was told
to stop, or that its time was up. -/
theorem Account.compensated {f : Failure} (h : Account setup q (.compensating f) log) :
    (∃ g, f = .container g ∧ g.isPull = false) ∨ f = .cancelled q.containerName ∨
      f = .timeout q.containerName setup.activityTimeout := by
  cases h with
  | fails b h hf => exact .inl ⟨_, rfl, hf⟩
  | interrupted h hs e f hf => exact .inr hf

theorem not_asked_settling {finding : Finding} {result : Except StoreError Unit}
    (ask : Container.Ask) (e : Event) :
    .called (.container ask) e ∉ settling q finding result := by
  unfold settling
  cases finding.dispatched <;> simp [write]

theorem claim_not_mem_settling {finding : Finding} {result : Except StoreError Unit} {won : Bool} :
    .claim won ∉ settling q finding result := by
  unfold settling
  cases finding.dispatched <;> simp [write]

/-- A run claims its marker once. -/
theorem Account.claims_once (h : Account setup q phase log) (hc : .claim true ∈ log) :
    .claim false ∉ log := by
  induction h with
  | reading => exact List.not_mem_nil
  | queued b | found b | stopped b => simp [read] at hc
  | unread e => simp at hc
  | staging b | unstaged b => simp [launching, read]
  | living b | releasing b | retrying b | removed b | fails b | lacksImage b =>
    simp [launching, read, exchanged]
  | triedAgain b => simp [launching, read, exchanged, removal]
  | interrupted h hs e f hf ih | broke h e ih | dropped h e ih =>
    rw [List.mem_append, or_iff_left claim_not_mem_lastCall] at hc ⊢
    exact ih hc
  | cleared h cleanup ih =>
    simp only [removal, List.mem_append, List.mem_cons, reduceCtorEq, List.not_mem_nil, or_false,
      or_self] at hc ⊢
    exact ih hc
  | stored h result ih =>
    rw [List.mem_append, or_iff_left claim_not_mem_settling] at hc ⊢
    exact ih hc

/-- **A run that did not claim its marker asked the runtime nothing.** -/
theorem Account.unclaimed (h : Account setup q phase log) (hc : .claim true ∉ log)
    (ask : Container.Ask) (e : Event) : .called (.container ask) e ∉ log := by
  induction h with
  | reading => exact List.not_mem_nil
  | queued b => simp [read]
  | staging b => simp [launching] at hc
  | living b | releasing b | retrying b | removed b | fails b =>
    exact absurd (claim_mem_launching b _) hc
  | triedAgain b | lacksImage b =>
    rw [List.append_assoc] at hc
    exact absurd (claim_mem_launching b _) hc
  | found b => simp [read]
  | interrupted h hs =>
    obtain ⟨b, l, rfl⟩ := h.of_holdsSlot hs
    exact absurd (List.mem_append_left _ (claim_mem_launching b _)) hc
  | unread e => simp
  | stopped b => simp [read]
  | unstaged b => exact absurd (claim_mem_launching b _) hc
  | cleared h =>
    exact absurd (List.mem_append_left _ (h.claimed_of_asks rfl)) hc
  | @stored finding log h result ih =>
    have hc' : .claim true ∉ log := fun hm => hc (List.mem_append_left _ hm)
    rw [List.mem_append]
    rintro (hm | hm)
    · exact ih hc' hm
    · exact not_asked_settling _ _ hm
  | broke h e' ih | dropped h e' ih =>
    rw [List.mem_append] at hc ⊢
    rintro (hm | hm)
    · exact ih (fun hm => hc (.inl hm)) hm
    · exact hc (.inl (h.claimed_of_asks (called_of_mem_lastCall hm).1))

end Accounts

/-! ### Courses -/

section Courses

variable {setup : Setup} {others : Shared → Shared → Prop} {number : Nat} {q : Request}
  {s₀ s : Shared} {log : List Deed} {r : Run}

theorem Course.sound (h : Course setup others number q s₀ log s r) : r.Sound setup := by
  induction h with
  | start => exact start_sound setup number q
  | told _ ih => exact ih.told
  | step _ now e ih => exact (step_move ih e).sound ih
  | meanwhile _ _ ih => exact ih

theorem Course.move (h : Course setup others number q s₀ log s r) (now : Nat) (e : Event) :
    Move setup now s r (r.heeded e) (r.step setup now s e).1.1 (r.step setup now s e).1.2 :=
  step_move h.sound e

theorem Course.same (h : Course setup others number q s₀ log s r) :
    r.number = number ∧ r.request = q := by
  induction h with
  | start => exact ⟨rfl, rfl⟩
  | told _ ih => exact ih
  | step h now e ih =>
    obtain ⟨hn, hq⟩ := (h.move now e).same
    exact ⟨hn.trans ih.1, hq.trans ih.2⟩
  | meanwhile _ _ ih => exact ih

/-- **What a run has done is told by its phase**, whatever came in between. -/
theorem Course.account (h : Course setup others number q s₀ log s r) :
    Account setup q r.phase log := by
  induction h with
  | start => exact .reading
  | told _ ih => exact ih
  | step h now e ih =>
    rw [← h.same.2] at ih ⊢
    exact ih.next h.sound (h.move now e)
  | meanwhile _ _ ih => exact ih

theorem Course.claimed (h : Course setup others number q s₀ log s r) (hh : r.holds = true) :
    .claim true ∈ log := by
  induction h with
  | start => cases hh
  | told _ ih => exact ih hh
  | step h now e ih =>
    rcases (h.move now e).markers h.sound with ⟨-, hk, -⟩ | ⟨-, -, -, hk, hd, hc⟩ | ⟨-, -, hk⟩
    · exact List.mem_append_left _ (ih (hk ▸ hh))
    · exact List.mem_append_right _ (claim_mem_of_holds hd hk hc)
    · rw [hk] at hh
      cases hh
  | meanwhile _ _ ih => exact ih hh

end Courses

end Run
end RunDispatch
