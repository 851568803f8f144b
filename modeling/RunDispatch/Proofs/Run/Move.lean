/-
# What a step of a run can do

Every step of a run is one of a few moves: it goes on to its next call, it claims its marker or finds
one, it stages or removes a file, it is interrupted, it comes to its end. A move says what becomes of
the run and of what the runs share, and all that holds of the steps of a run is read off its moves.

The moves are those of a sound run, one that is where its way can have led it: what it claimed and
guards fits what it waits for. A run starts sound, and its steps keep it so.

Key definitions: `holds`, `claimedAt`, `Sound`, `Move`.
Key theorems: `step_move`, `Move.sound`.
-/
import RunDispatch.Run.Machine

namespace RunDispatch
namespace Run

/-- Whether the run has claimed its marker and not deleted it yet. -/
def holds (r : Run) : Bool :=
  match r.phase with
  | .ended _ => false
  | _ => r.claimed

/-- When the run had its slot and claimed its marker: its time began to run then. -/
def claimedAt (setup : Setup) (r : Run) : Option Nat :=
  r.deadline.map (· - setup.activityTimeout)

/-! ### Sound runs -/

/-- What a run has by the time it waits for this or that. -/
def InPlace (setup : Setup) (r : Run) : Prop :=
  match r.phase with
  | .reading | .queued _ => r.claimed = false ∧ r.deadline = none
  | .staging _ left => r.claimed = true ∧ left ≠ []
  | .living _ => r.claimed = true ∧ r.guarded ≠ []
  | .releasing left _ =>
    r.claimed = true ∧ left ≠ [] ∧ ∀ f ∈ left, f.path = payloadPath setup r f.kind
  | .retrying _ | .compensating _ => r.claimed = true
  | .recording finding => r.claimed = finding.dispatched ∧ r.deadline.isSome = true
  | .ended _ | .broken | .dropped => True

/-- A run that is where its way can have led it: its time runs once it has claimed its marker, and it
guards files of its own name only. -/
structure Sound (setup : Setup) (r : Run) : Prop where
  timed : r.claimed = true → r.deadline.isSome = true
  paths : ∀ f ∈ r.guarded, f.path = payloadPath setup r f.kind
  place : r.InPlace setup

theorem start_sound (setup : Setup) (number : Nat) (q : Request) :
    (start number q).Sound setup where
  timed h := by cases h
  paths f hf := by cases hf
  place := ⟨rfl, rfl⟩

theorem Sound.told {setup : Setup} {r : Run} (h : r.Sound setup) :
    { r with cancelled := true }.Sound setup :=
  ⟨h.timed, h.paths, h.place⟩

/-! ### Moves -/

/-- The run gets a slot, at once or after having waited, and has its configuration. -/
def Admitted (s : Shared) (r : Run) (e : Event) (configuration : Bytes) (slots : Slots) : Prop :=
  (r.phase = .reading ∧ e = .configuration (.ok configuration) ∧ r.cancelled = false ∧
    s.slots.acquire r.number = (true, slots)) ∨
  (r.phase = .queued configuration ∧ e = .slot ∧ s.slots.takeUp r.number = (true, slots))

/-- How a run stops for good without more ado. -/
def fatal? : Event → Option Phase
  | .panic => some .broken
  | .drop => some .dropped
  | _ => none

theorem eq_of_fatal {e : Event} {phase : Phase} (h : fatal? e = some phase) :
    phase = .broken ∨ phase = .dropped := by
  cases e <;> simp only [fatal?, Option.some.injEq, reduceCtorEq] at h
  · exact .inl h.symm
  · exact .inr h.symm

/-- What becomes of a run, and of what the runs share, when the run heeds an event. -/
inductive Move (setup : Setup) (now : Nat) (s : Shared) (r : Run) : Event → Shared → Run → Prop
  /-- What does not fit changes nothing. -/
  | stays (e : Event) : Move setup now s r e s r
  /-- A run that does not listen remembers that it was told to stop. -/
  | notes : Move setup now s r .cancel s { r with cancelled := true }
  | unread (h : r.phase = .reading) (e : StoreError) :
      Move setup now s r (.configuration (.error e)) s (r.finish (.error (.store e)))
  | stopsEarly (h : r.phase = .reading) (configuration : Bytes) :
      Move setup now s r (.configuration (.ok configuration)) s
        (r.finish (.error (.cancelled r.name)))
  | waits (h : r.phase = .reading) (configuration : Bytes) (slots : Slots)
      (hs : s.slots.acquire r.number = (false, slots)) (hc : r.cancelled = false) :
      Move setup now s r (.configuration (.ok configuration)) { s with slots }
        { r with phase := .queued configuration }
  | stopsWaiting (configuration : Bytes) (h : r.phase = .queued configuration) :
      Move setup now s r .cancel { s with slots := s.slots.giveUp r.number }
        { r with cancelled := true, phase := .ended (.error (.cancelled r.name)) }
  | finds (e : Event) (configuration : Bytes) (slots : Slots)
      (h : Admitted s r e configuration slots) (hl : s.markers.read now r.name = some true) :
      Move setup now s r e (leaveSlot { s with slots })
        { r with
          deadline := some (now + setup.activityTimeout)
          phase := .recording ⟨.ok, false, false⟩ }
  | claims (e : Event) (configuration : Bytes) (slots : Slots)
      (h : Admitted s r e configuration slots) (hl : s.markers.read now r.name ≠ some true) :
      Move setup now s r e { s with slots, markers := s.markers.set now r.name }
        { r with
          deadline := some (now + setup.activityTimeout)
          claimed := true
          phase := .staging (firstStep r.request.kind.stagingMode) (r.payloads configuration) }
  | prepares (place next : StagingStep) (left : List Staging.Payload)
      (h : r.phase = .staging place left) (hl : left ≠ []) :
      Move setup now s r .file (finishFile setup s r) { r with phase := .staging next left }
  | stages (place next : StagingStep) (kind : Staging.PayloadKind) (content : Bytes)
      (rest : List Staging.Payload) (h : r.phase = .staging place ((kind, content) :: rest))
      (hr : rest ≠ []) (reused : Bool) :
      Move setup now s r .file (finishFile setup s r)
        { r with
          guarded := r.guarded ++ [⟨kind, payloadPath setup r kind, reused⟩]
          phase := .staging next rest }
  | launches (place : StagingStep) (kind : Staging.PayloadKind) (content : Bytes)
      (h : r.phase = .staging place [(kind, content)]) (reused : Bool) :
      Move setup now s r .file (finishFile setup s r)
        { r with
          guarded := r.guarded ++ [⟨kind, payloadPath setup r kind, reused⟩]
          phase := .living .pulling }
  | cannotStage (place : StagingStep) (left : List Staging.Payload)
      (h : r.phase = .staging place left) (e : Staging.StagingError) :
      Move setup now s r .file
        (leaveSlot (dropMarker (dropGuard (finishFile setup s r) r).1 r))
        { r with guarded := [], claimed := false, phase := .ended (.error (.staging e)) }
  | lives (stage next : Container.Stage) (h : r.phase = .living stage) (reply : Container.Reply)
      (hn : (stage.next reply).1 = next) (hne : next ≠ stage) (hl : ∀ x, next ≠ .ended x) :
      Move setup now s r (.container reply) s { r with phase := .living next }
  | fails (stage : Container.Stage) (h : r.phase = .living stage) (reply : Container.Reply)
      (f : Container.Failure) (hn : (stage.next reply).1 = .ended (.error f))
      (hf : f.isPull = false) :
      Move setup now s r (.container reply) (leaveSlot (dropGuard s r).1)
        { r with guarded := [], phase := .compensating (.container f) }
  | lacksImage (stage : Container.Stage) (h : r.phase = .living stage) (reply : Container.Reply)
      (f : Container.Failure) (hn : (stage.next reply).1 = .ended (.error f))
      (hf : f.isPull = true) :
      Move setup now s r (.container reply) (dropMarker (leaveSlot (dropGuard s r).1) r)
        { r with guarded := [], phase := .ended (.error (.container f)) }
  | exits (stage : Container.Stage) (h : r.phase = .living stage) (reply : Container.Reply)
      (exit : Container.Exit) (hn : (stage.next reply).1 = .ended (.ok exit)) :
      Move setup now s r (.container reply) s
        { r with guarded := [], phase := .releasing r.guarded exit }
  | releases (file : Staging.StagedFile) (rest : List Staging.StagedFile) (exit : Container.Exit)
      (h : r.phase = .releasing (file :: rest) exit) (hr : rest ≠ []) :
      Move setup now s r .file (finishFile setup s r) { r with phase := .releasing rest exit }
  | retries (file : Staging.StagedFile) (exit : Container.Exit)
      (h : r.phase = .releasing [file] exit) (hc : exit.cleanup.isSome = true) :
      Move setup now s r .file (leaveSlot (finishFile setup s r))
        { r with phase := .retrying exit }
  | finishes (file : Staging.StagedFile) (exit : Container.Exit)
      (h : r.phase = .releasing [file] exit) (hc : exit.cleanup = none) :
      Move setup now s r .file (leaveSlot (finishFile setup s r))
        { r with phase := .recording ⟨.ofExitStatus exit.status, true, false⟩ }
  | retried (exit : Container.Exit) (h : r.phase = .retrying exit) (reply : Container.Reply)
      (finding : Finding) (hf : Run.retried exit reply = some finding) :
      Move setup now s r (.container reply) s { r with phase := .recording finding }
  | records (finding : Finding) (h : r.phase = .recording finding)
      (result : Except StoreError Unit) :
      Move setup now s r (.stored result) (recorded s r finding result).1
        (recorded s r finding result).2
  | clears (f : Failure) (h : r.phase = .compensating f) (reply : Container.Reply)
      (hr : reply = .done ∨ ∃ g, reply = .failed g) :
      Move setup now s r (.container reply) (dropMarker s r) (r.finish (.error f))
  | stops (h : r.holdsSlot = true) :
      Move setup now s r .cancel (interrupt setup s r).1
        { r with cancelled := true, guarded := [], phase := .compensating (.cancelled r.name) }
  | timesOut (h : r.holdsSlot = true) :
      Move setup now s r .timeout (interrupt setup s r).1
        { r with
          guarded := []
          phase := .compensating (.timeout r.name setup.activityTimeout) }
  | breaksWaiting (e : Event) (phase : Phase) (he : fatal? e = some phase) (configuration : Bytes)
      (h : r.phase = .queued configuration) :
      Move setup now s r e { s with slots := s.slots.giveUp r.number } { r with phase }
  | breaksInSlot (e : Event) (phase : Phase) (he : fatal? e = some phase)
      (h : r.holdsSlot = true) :
      Move setup now s r e (interrupt setup s r).1 { r with guarded := [], phase }
  | breaks (e : Event) (phase : Phase) (he : fatal? e = some phase) (h : r.isOver = false)
      (hs : r.holdsSlot = false) (hq : ∀ configuration, r.phase ≠ .queued configuration) :
      Move setup now s r e s { r with phase }

/-! ### Every step is a move -/

section Steps

variable {setup : Setup} {now : Nat} {s : Shared} {r : Run}

theorem enter_move {e : Event} {configuration : Bytes} {slots : Slots}
    (h : Admitted s r e configuration slots) :
    Move setup now s r e (enter setup now { s with slots } r configuration).1
      (enter setup now { s with slots } r configuration).2 := by
  unfold enter
  by_cases hl : s.markers.read now r.name = some true
  · have hc : s.markers.claim now r.name = (false, s.markers) := if_pos hl
    simp only [name] at hc ⊢
    rw [hc]
    exact .finds e configuration slots h hl
  · have hc : s.markers.claim now r.name = (true, s.markers.set now r.name) := if_neg hl
    simp only [name] at hc ⊢
    rw [hc]
    exact .claims e configuration slots h hl

theorem queue_move (h : r.phase = .reading) (configuration : Bytes) :
    Move setup now s r (.configuration (.ok configuration))
      (queue setup now s r configuration).1 (queue setup now s r configuration).2 := by
  unfold queue
  split
  · exact .stopsEarly h configuration
  · rename_i hc
    split
    · rename_i slots hs
      exact enter_move (.inl ⟨h, rfl, by simpa using hc, hs⟩)
    · rename_i slots hs
      exact .waits h configuration slots hs (by simpa using hc)

theorem staged_move {place : StagingStep} {kind : Staging.PayloadKind} {content : Bytes}
    {rest : List Staging.Payload} (h : r.phase = .staging place ((kind, content) :: rest))
    (reused : Bool) :
    Move setup now s r .file (staged setup (finishFile setup s r) r kind reused rest).1
      (staged setup (finishFile setup s r) r kind reused rest).2 := by
  cases rest with
  | nil => exact .launches place kind content h reused
  | cons next rest => exact .stages place _ kind content (next :: rest) h (by simp) reused

theorem stagingFailed_move {place : StagingStep} {left : List Staging.Payload}
    (h : r.phase = .staging place left) (e : Staging.StagingError) :
    Move setup now s r .file (stagingFailed (finishFile setup s r) r e).1
      (stagingFailed (finishFile setup s r) r e).2 :=
  .cannotStage place left h e

/-- The file operation of a payload comes to the same whether the run waits for it or not. -/
theorem stageFile_move {place : StagingStep} {left : List Staging.Payload}
    (h : r.phase = .staging place left) (hl : left ≠ []) :
    Move setup now s r .file (stageFile setup s r place left).1
      (stageFile setup s r place left).2 := by
  obtain ⟨⟨kind, content⟩, rest, rfl⟩ := List.exists_cons_of_ne_nil hl
  cases place with
  | looking =>
    have hf : finishFile setup s r = { s with disk := (s.disk.holds (payloadPath setup r kind)).2 } := by
      simp [finishFile, h]
    simp only [stageFile]
    split
    · rename_i d hd
      have : Move setup now s r .file _ _ := staged_move h true
      rwa [hf, hd] at this
    · rename_i d hd
      have : Move setup now s r .file _ _ := .prepares _ .makingFolders _ h hl
      rwa [hf, hd] at this
  | makingFolders =>
    have hf : finishFile setup s r =
        { s with disk := (s.disk.makeParents (payloadPath setup r kind)).1 } := by
      simp [finishFile, h]
    simp only [stageFile]
    split
    · rename_i d hd
      have : Move setup now s r .file _ _ := .prepares _ .writing _ h hl
      rwa [hf, hd] at this
    · rename_i d e hd
      have : Move setup now s r .file _ _ := stagingFailed_move h
        (.of .createFolders (payloadPath setup r kind) e)
      rwa [hf, hd] at this
  | writing =>
    have hf : finishFile setup s r =
        { s with disk := (s.disk.write (payloadPath setup r kind) content).1 } := by
      simp [finishFile, h]
    simp only [stageFile]
    split
    · rename_i d hd
      have : Move setup now s r .file _ _ := staged_move h false
      rwa [hf, hd] at this
    · rename_i d e hd
      have : Move setup now s r .file _ _ := stagingFailed_move h
        (.of .write (payloadPath setup r kind) e)
      rwa [hf, hd] at this

theorem live_move {stage : Container.Stage} (h : r.phase = .living stage) (hs : r.Sound setup)
    (reply : Container.Reply) :
    Move setup now s r (.container reply) (live s r stage reply).1.1 (live s r stage reply).1.2 := by
  have hp := hs.place
  simp only [InPlace, h] at hp
  unfold live
  split
  · rename_i result shown hn
    have hn' : (stage.next reply).1 = .ended result := by rw [hn]
    cases result with
    | error f =>
      cases hf : f.isPull with
      | false =>
        have : Move setup now s r (.container reply) _ _ :=
          .fails stage h reply f hn' hf
        simpa [lived, fail, dropGuard, hp.1, Failure.isPull, hf] using this
      | true =>
        have : Move setup now s r (.container reply) _ _ :=
          .lacksImage stage h reply f hn' hf
        simpa [lived, fail, dropGuard, dropMarker, finish, name, hp.1, Failure.isPull, hf] using this
    | ok exit =>
      obtain ⟨file, rest, hg⟩ := List.exists_cons_of_ne_nil hp.2
      have : Move setup now s r (.container reply) _ _ :=
        .exits stage h reply exit hn'
      simpa [lived, hg] using this
  · rename_i next shown hne hn
    by_cases he : next = stage
    · have hr : { r with phase := .living next } = r := by rw [he, ← h]
      simp only [hr]
      exact .stays _
    · exact .lives stage next h reply (by rw [hn]) he fun x hx => hne x (by rw [hx])

theorem releaseFile_move {left : List Staging.StagedFile} {exit : Container.Exit}
    (h : r.phase = .releasing left exit) (hl : left ≠ []) :
    Move setup now s r .file (releaseFile s r left exit).1 (releaseFile s r left exit).2 := by
  obtain ⟨file, rest, rfl⟩ := List.exists_cons_of_ne_nil hl
  have hf : finishFile setup s r = { s with disk := (s.disk.remove file.path).1 } := by
    simp [finishFile, h]
  simp only [releaseFile]
  cases rest with
  | nil =>
    cases hc : exit.cleanup with
    | none =>
      have : Move setup now s r .file _ _ := .finishes file exit h hc
      simpa [hf, released, complete, hc] using this
    | some f =>
      have : Move setup now s r .file _ _ := .retries file exit h (by simp [hc])
      simpa [hf, released, complete, hc] using this
  | cons next rest =>
    have : Move setup now s r .file _ _ := .releases file _ exit h (by simp)
    rwa [hf] at this

/-- A sound run in its slot has claimed its marker, so it is compensated when it is interrupted. -/
theorem Sound.claimed_of_holdsSlot (hs : r.Sound setup) (h : r.holdsSlot = true) :
    r.claimed = true := by
  have hp := hs.place
  unfold holdsSlot at h
  unfold InPlace at hp
  split at h
  · rename_i hph
    simp only [hph] at hp
    exact hp.1
  · rename_i hph
    simp only [hph] at hp
    exact hp.1
  · rename_i hph
    simp only [hph] at hp
    exact hp.1
  · cases h

theorem fail_of_claimed (hc : r.claimed = true) {f : Failure} (hf : f.isPull = false) :
    fail s r f = (s, { r with phase := .compensating f }) := by
  simp [fail, hc, hf]

theorem cancel_move (hs : r.Sound setup) :
    Move setup now s r .cancel (cancel setup s r).1 (cancel setup s r).2 := by
  unfold cancel
  dsimp only
  split
  · rename_i configuration h
    exact .stopsWaiting configuration h
  · split
    · rename_i h
      rw [fail_of_claimed]
      · exact .stops h
      · exact hs.claimed_of_holdsSlot (r := r) h
      · rfl
    · exact .notes

theorem expire_move (hs : r.Sound setup) :
    Move setup now s r .timeout (expire setup s r).1 (expire setup s r).2 := by
  unfold expire
  split
  · rename_i h
    dsimp only
    rw [fail_of_claimed]
    · exact .timesOut h
    · exact hs.claimed_of_holdsSlot h
    · rfl
  · exact .stays _

theorem abandon_move {e : Event} {phase : Phase} (he : fatal? e = some phase) :
    Move setup now s r e (abandon setup s r phase).1 (abandon setup s r phase).2 := by
  unfold abandon
  split
  · exact .stays _
  · rename_i ho
    split
    · rename_i configuration h
      exact .breaksWaiting e phase he configuration h
    · rename_i hq
      split
      · rename_i h
        exact .breaksInSlot e phase he h
      · rename_i h
        exact .breaks e phase he (by simpa using ho) (by simpa using h) hq

theorem react_move (hs : r.Sound setup) (e : Event) :
    Move setup now s r e (r.react setup now s e).1.1 (r.react setup now s e).1.2 := by
  have hp := hs.place
  cases e with
  | configuration result =>
    simp only [react]
    split
    · rename_i configuration h
      exact queue_move h configuration
    · rename_i e h
      exact .unread h e
    · exact .stays _
  | slot =>
    simp only [react]
    split
    · rename_i configuration h
      split
      · rename_i slots hu
        exact enter_move (.inr ⟨h, rfl, hu⟩)
      · exact .stays _
    · exact .stays _
  | file =>
    simp only [react]
    split
    · rename_i place left h
      simp only [InPlace, h] at hp
      exact stageFile_move h hp.2
    · rename_i left exit h
      simp only [InPlace, h] at hp
      exact releaseFile_move h hp.2.1
    · exact .stays _
  | container reply =>
    simp only [react]
    split
    · rename_i stage h
      exact live_move h hs reply
    · rename_i exit h
      split
      · rename_i finding hf
        exact .retried exit h reply finding hf
      · exact .stays _
    · rename_i f h
      split
      · exact .clears f h _ (.inl rfl)
      · exact .clears f h _ (.inr ⟨_, rfl⟩)
      · exact .stays _
    · exact .stays _
  | stored result =>
    simp only [react]
    split
    · rename_i finding h
      exact .records finding h result
    · exact .stays _
  | cancel => exact cancel_move hs
  | timeout => exact expire_move hs
  | panic => exact abandon_move rfl
  | drop => exact abandon_move rfl

/-- **Every step is a move**: that of the event which the run heeds. -/
theorem step_move (hs : r.Sound setup) (e : Event) :
    Move setup now s r (r.heeded e) (r.step setup now s e).1.1 (r.step setup now s e).1.2 :=
  react_move hs (r.heeded e)

end Steps

/-! ### Moves keep a run sound -/

section Sound

variable {setup : Setup} {now : Nat} {s s' : Shared} {r r' : Run} {e : Event}

theorem Move.same (h : Move setup now s r e s' r') :
    r'.number = r.number ∧ r'.request = r.request := by
  cases h
  case records finding h result => cases result <;> exact ⟨rfl, rfl⟩
  all_goals exact ⟨rfl, rfl⟩

theorem Sound.paths_append (hs : r.Sound setup) (kind : Staging.PayloadKind) (reused : Bool) :
    ∀ f ∈ r.guarded ++ [(⟨kind, payloadPath setup r kind, reused⟩ : Staging.StagedFile)],
      f.path = payloadPath setup r f.kind := by
  intro f hf
  rcases List.mem_append.mp hf with hf | hf
  · exact hs.paths f hf
  · rw [List.mem_singleton.mp hf]

theorem no_paths {P : Staging.StagedFile → Prop} : ∀ f ∈ ([] : List Staging.StagedFile), P f :=
  fun _ hf => by cases hf

theorem Sound.ended (hs : r.Sound setup) (result : Except Failure Report) :
    (r.finish result).Sound setup :=
  ⟨hs.timed, hs.paths, trivial⟩

/-- **A move keeps a run sound.** -/
theorem Move.sound (h : Move setup now s r e s' r') (hs : r.Sound setup) : r'.Sound setup := by
  have hp := hs.place
  unfold InPlace at hp
  cases h with
  | stays => exact hs
  | notes => exact hs.told
  | unread => exact hs.ended _
  | stopsEarly => exact hs.ended _
  | waits hr =>
    simp only [hr] at hp
    exact ⟨hs.timed, hs.paths, hp⟩
  | stopsWaiting => exact ⟨hs.timed, hs.paths, trivial⟩
  | finds _ _ _ ha =>
    have hc : r.claimed = false := by
      rcases ha with ⟨hr, -⟩ | ⟨hr, -⟩ <;> (simp only [hr] at hp; exact hp.1)
    exact ⟨fun _ => rfl, hs.paths, hc, rfl⟩
  | claims => exact ⟨fun _ => rfl, hs.paths, rfl, by simp [payloads]⟩
  | prepares place next left hr hl =>
    simp only [hr] at hp
    exact ⟨hs.timed, hs.paths, hp.1, hl⟩
  | stages place next kind content rest hr hne reused =>
    simp only [hr] at hp
    exact ⟨hs.timed, hs.paths_append kind reused, hp.1, hne⟩
  | launches place kind content hr reused =>
    simp only [hr] at hp
    exact ⟨hs.timed, hs.paths_append kind reused, hp.1, by simp⟩
  | cannotStage => exact ⟨nofun, no_paths, trivial⟩
  | lives stage next hr =>
    simp only [hr] at hp
    exact ⟨hs.timed, hs.paths, hp⟩
  | fails stage hr =>
    simp only [hr] at hp
    exact ⟨hs.timed, no_paths, hp.1⟩
  | lacksImage => exact ⟨hs.timed, no_paths, trivial⟩
  | exits stage hr =>
    simp only [hr] at hp
    exact ⟨hs.timed, no_paths, hp.1, hp.2, hs.paths⟩
  | releases file rest exit hr hne =>
    simp only [hr] at hp
    exact ⟨hs.timed, hs.paths, hp.1, hne, fun f hf => hp.2.2 f (List.mem_cons_of_mem _ hf)⟩
  | retries file exit hr =>
    simp only [hr] at hp
    exact ⟨hs.timed, hs.paths, hp.1⟩
  | finishes file exit hr =>
    simp only [hr] at hp
    exact ⟨hs.timed, hs.paths, hp.1, hs.timed hp.1⟩
  | retried exit hr reply finding hf =>
    simp only [hr] at hp
    have hd : finding.dispatched = true := by
      cases reply <;> simp only [Run.retried, Option.some.injEq, reduceCtorEq] at hf <;>
        rw [← hf]
    exact ⟨hs.timed, hs.paths, by rw [hd]; exact hp, hs.timed hp⟩
  | records finding hr result => cases result <;> exact hs.ended _
  | clears => exact hs.ended _
  | stops h => exact ⟨hs.timed, no_paths, hs.claimed_of_holdsSlot h⟩
  | timesOut h => exact ⟨hs.timed, no_paths, hs.claimed_of_holdsSlot h⟩
  | breaksWaiting e phase he =>
    rcases eq_of_fatal he with rfl | rfl <;> exact ⟨hs.timed, hs.paths, trivial⟩
  | breaksInSlot e phase he =>
    rcases eq_of_fatal he with rfl | rfl <;> exact ⟨hs.timed, no_paths, trivial⟩
  | breaks e phase he =>
    rcases eq_of_fatal he with rfl | rfl <;> exact ⟨hs.timed, hs.paths, trivial⟩

end Sound

end Run
end RunDispatch
