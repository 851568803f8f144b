/-
# What a run leaves behind

A run that comes to its end cleans up after itself, whatever the store, the files and the runtime
answered and whenever it was told to stop or its time was up. If it claimed its marker, the marker is
gone, so that the run can be tried again; if its container was asked for, the removal of the container
was asked for after all else. And it goes no further than that: a run that never claimed its marker
leaves every marker and every file alone and asks the runtime nothing, and no removal is asked for when
nothing can have been launched.

The markers are told by two facts that every step keeps: a run that holds its marker has claimed it,
and a run that has claimed its marker holds it unless it is gone.

Key definitions: `Compensated`.
Key theorems: `Course.marker`, `Course.markers_untouched`, `Course.disk_untouched`,
`Account.removed_last`, `Account.not_removed`.
-/
import RunDispatch.Proofs.Run.Course
import RunDispatch.Proofs.Run.Files

namespace RunDispatch
namespace Run

/-! ### Markers and files -/

section Courses

variable {setup : Setup} {others : Shared → Shared → Prop} {number : Nat} {q : Request}
  {s₀ s : Shared} {log : List Deed} {r : Run}

/-- **The marker of a run.** A run that has claimed its marker holds it still, or it is gone, if no
other sets one under its name. -/
theorem Course.marker (h : Course setup others number q s₀ log s r)
    (ho : ∀ s t, others s t → s.markers.entries.find? q.containerName = none →
      t.markers.entries.find? q.containerName = none)
    (hc : .claim true ∈ log) :
    r.holds = true ∨ s.markers.entries.find? q.containerName = none := by
  induction h with
  | start => cases hc
  | told _ ih => exact ih hc
  | step h now e ih =>
    rcases List.mem_append.mp hc with hc | hc
    · rcases (h.move now e).markers h.sound with ⟨hm, hk, -⟩ | ⟨-, -, -, hk, -⟩ | ⟨hm, -, -⟩
      · rw [hm, hk]
        exact ih hc
      · exact .inl hk
      · right
        rw [hm, ← h.same.2]
        simp [Markers.delete, Table.find?_erase, name]
    · exact .inl ((h.move now e).claim h.sound hc).1
  | meanwhile _ hs ih =>
    rcases ih hc with hh | hn
    · exact .inl hh
    · exact .inr (ho _ _ hs hn)

theorem Course.markers_untouched (h : Course setup others number q s₀ log s r)
    (hc : .claim true ∉ log) : AsOthersMade others Shared.markers s₀ s := by
  intro p ho hp
  induction h with
  | start => exact hp
  | told _ ih => exact ih hc
  | step h now e ih =>
    rw [List.mem_append, not_or] at hc
    rcases (h.move now e).markers h.sound with ⟨hm, -⟩ | ⟨-, -, -, hk, hd, ht⟩ | ⟨-, hh, -⟩
    · rw [hm]
      exact ih hc.1
    · exact absurd (claim_mem_of_holds hd hk ht) hc.2
    · exact absurd (h.claimed hh) hc.1
  | meanwhile _ hs ih => exact ho _ _ hs (ih hc)

theorem Course.disk_untouched (h : Course setup others number q s₀ log s r)
    (hc : .claim true ∉ log) : AsOthersMade others Shared.disk s₀ s := by
  intro p ho hp
  induction h with
  | start => exact hp
  | told _ ih => exact ih hc
  | step h now e ih =>
    rw [List.mem_append, not_or] at hc
    have hh := Bool.eq_false_iff.mpr fun hh => hc.1 (h.claimed hh)
    rw [(h.move now e).disk_of_not_holds h.sound hh]
    exact ih hc.1
  | meanwhile _ hs ih => exact ho _ _ hs (ih hc)

end Courses

/-! ### Removals -/

section Accounts

variable {setup : Setup} {q : Request} {result : Except Failure Report} {log : List Deed}

/-- The exchanges with the runtime about a container that was asked for end with its removal. -/
theorem exchanged_ends {x : Except Container.Failure Container.Exit}
    {l : List Container.Exchange} (h : Had setup q (.ended x) l) {spec : Container.Spec} {e : Event}
    (hc : .called (.container (.create spec)) e ∈ exchanged l) :
    ∃ before cleanup, exchanged l = before ++ [removal q cleanup] := by
  rcases Container.Told.ends h with ⟨f, -, rfl⟩ | ⟨inner, cleanup, rfl, -⟩
  · simp [exchanged] at hc
  · refine ⟨exchanged (Container.pulled (specFor q setup.layout) :: inner), cleanup, ?_⟩
    simp only [exchanged, List.map_append, List.map_cons, List.map_nil]
    rfl

theorem create_not_mem_launching {b : Bytes} {spec : Container.Spec} {e : Event} :
    .called (.container (.create spec)) e ∉ launching q b := by
  simp [launching, read]

/-- **The removal comes last.** If the container of a run was asked for, its removal was asked for
after all else that was asked of the runtime. -/
theorem Account.removed_last (h : Account setup q (.ended result) log) {spec : Container.Spec}
    {e : Event} (hc : .called (.container (.create spec)) e ∈ log) :
    ∃ before cleanup after, log = before ++ removal q cleanup :: after ∧
      ∀ ask e, .called (.container ask) e ∉ after := by
  cases h with
  | unread e => simp at hc
  | stopped b => simp [read] at hc
  | unstaged b e => simp [launching, read] at hc
  | lacksImage b h hf =>
    simp only [List.mem_append, create_not_mem_launching, false_or, List.mem_singleton,
      reduceCtorEq, or_false] at hc
    obtain ⟨before, cleanup, hx⟩ := exchanged_ends h hc
    refine ⟨launching q b ++ before, cleanup, [.delete], ?_, by simp⟩
    rw [hx]
    simp
  | cleared h cleanup => exact ⟨_, cleanup, [.delete], rfl, by simp⟩
  | stored h stored =>
    replace hc := (List.mem_append.mp hc).resolve_right (not_asked_settling _ _)
    cases h with
    | found b => simp [read] at hc
    | @removed b exit l h =>
      replace hc := (List.mem_append.mp hc).resolve_left create_not_mem_launching
      obtain ⟨before, cleanup, hx⟩ := exchanged_ends h hc
      refine ⟨launching q b ++ before, cleanup, settling q ⟨.ofExitStatus exit.status, true, false⟩
        stored, ?_, not_asked_settling⟩
      rw [hx]
      simp
    | @triedAgain b exit l h hs cleanup =>
      refine ⟨launching q b ++ exchanged l, cleanup, settling q
        ⟨.ofExitStatus exit.status, true, cleanup.isSome⟩ stored, ?_, not_asked_settling⟩
      simp

/-- A run that could not stage its payloads did nothing after it claimed its marker but delete it. -/
theorem Account.of_unstaged {e : Staging.StagingError}
    (h : Account setup q (.ended (.error (.staging e))) log) :
    ∃ b, log = launching q b ++ [.delete] := by
  generalize hr : Except.error (Failure.staging e) = result at h
  cases h with
  | unstaged b => exact ⟨b, rfl⟩
  | cleared h =>
    cases hr
    rcases h.compensated with ⟨g, hg, -⟩ | hg | hg <;> cases hg
  | stored h stored => cases stored <;> cases hr
  | unread | stopped | lacksImage => cases hr

/-- A run that could not have its image asked the runtime for that, and for nothing else. -/
theorem Account.of_lacksImage {f : Container.Failure}
    (h : Account setup q (.ended (.error (.container f))) log) (hf : f.isPull = true)
    {image : Image}
    (hm : .called (.container (.pull image)) (.container (.failed f)) ∈ log) :
    ∃ b, log = launching q b ++ exchanged [(.pull q.image, .failed f)] ++ [.delete] := by
  generalize hr : Except.error (Failure.container f) = result at h
  cases h with
  | @lacksImage b g l h hg =>
    cases hr
    have hl : (.pull image, .failed f) ∈ l := by
      simpa [launching, read, exchanged] using hm
    refine ⟨b, ?_⟩
    rw [Container.Told.eq_of_pull_failed h hl]
    rfl
  | cleared h =>
    cases hr
    rcases h.compensated with ⟨g, hg, hg'⟩ | hg | hg <;> cases hg
    rw [hf] at hg'
    cases hg'
  | stored h stored => cases stored <;> cases hr
  | unread | stopped | unstaged => cases hr

/-- **No removal without need.** No removal is asked for by a run that never claimed its marker, that
could not stage its payloads, or that could not have its image. -/
theorem Account.not_removed (h : Account setup q (.ended result) log)
    (hn : .claim true ∉ log ∨ (∃ e, result = .error (.staging e)) ∨
      ∃ f image, result = .error (.container f) ∧ f.isPull = true ∧
        .called (.container (.pull image)) (.container (.failed f)) ∈ log)
    (name : String) (e : Event) : .called (.container (.remove name)) e ∉ log := by
  rcases hn with hn | ⟨e', rfl⟩ | ⟨f, image, rfl, hf, hm⟩
  · exact h.unclaimed hn _ e
  · obtain ⟨b, rfl⟩ := h.of_unstaged
    simp [launching, read]
  · obtain ⟨b, rfl⟩ := h.of_lacksImage hf hm
    simp [launching, read, exchanged]

end Accounts

/-! ### The end of a run -/

/-- What a run that has come to its end leaves behind. -/
structure Compensated (others : Shared → Shared → Prop) (q : Request) (s₀ : Shared)
    (log : List Deed) (s : Shared) (result : Except Failure Report) : Prop where
  /-- The marker that was claimed is gone, so that the next run can claim it. -/
  marker : .claim true ∈ log → s.markers.entries.find? q.containerName = none ∧
    ∀ now, (s.markers.claim now q.containerName).1 = true
  /-- A run that never claimed its marker leaves all of them alone. -/
  markers : .claim true ∉ log → AsOthersMade others Shared.markers s₀ s
  /-- The removal of a container that was asked for was asked for after all else. -/
  removed : ∀ spec e, .called (.container (.create spec)) e ∈ log →
    ∃ before cleanup after, log = before ++ removal q cleanup :: after ∧
      ∀ ask e, .called (.container ask) e ∉ after
  /-- No removal was asked for when nothing can have been launched. -/
  spared : (.claim true ∉ log ∨ (∃ e, result = .error (.staging e)) ∨
      ∃ f image, result = .error (.container f) ∧ f.isPull = true ∧
        .called (.container (.pull image)) (.container (.failed f)) ∈ log) →
    ∀ name e, .called (.container (.remove name)) e ∉ log
  /-- A run that never claimed its marker asked the runtime nothing and leaves the files alone. -/
  idle : .claim true ∉ log → (∀ ask e, .called (.container ask) e ∉ log) ∧
    AsOthersMade others Shared.disk s₀ s

/-- **A run cleans up after itself.** Whatever was answered and whenever the run was interrupted: when
it has come to its end, and no other sets markers under its name, it leaves behind what it should. -/
theorem Course.compensates {setup : Setup} {others : Shared → Shared → Prop} {number : Nat}
    {q : Request} {s₀ s : Shared} {log : List Deed} {r : Run} {result : Except Failure Report}
    (h : Course setup others number q s₀ log s r) (hr : r.phase = .ended result)
    (ho : ∀ s t, others s t → s.markers.entries.find? q.containerName = none →
      t.markers.entries.find? q.containerName = none) :
    Compensated others q s₀ log s result := by
  have ha := h.account
  rw [hr] at ha
  refine ⟨fun hc => ?_, h.markers_untouched, fun _ _ => ha.removed_last, ha.not_removed,
    fun hc => ⟨ha.unclaimed hc, h.disk_untouched hc⟩⟩
  have hn : s.markers.entries.find? q.containerName = none := by
    refine (h.marker ho hc).resolve_left ?_
    simp [holds, hr]
  refine ⟨hn, fun now => ?_⟩
  simp [Markers.claim, Markers.read, hn]

def timedOut : List (Nat × Event) :=
  [(0, .configuration (.ok [])), (1, .file), (2, .file), (3, .container .done), (1000, .timeout),
    (1001, .container .done)]

theorem sample_compensates :
    (sample timedOut).2.2.phase = .ended (.error (.timeout "c" 1000)) ∧
      Compensated (fun _ _ => False) sampleRequest sampleShared (sample timedOut).1
        (sample timedOut).2.1 (.error (.timeout "c" 1000)) :=
  have hr : (sample timedOut).2.2.phase = .ended (.error (.timeout "c" 1000)) := by decide
  ⟨hr, Course.compensates (Course.play timedOut .start) hr nofun⟩

end Run
end RunDispatch
