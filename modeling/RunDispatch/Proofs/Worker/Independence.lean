/-
# Runs of different names do not affect each other

Runs share the markers, the disk, the slots and the store. If their names are different, and so are their
connectors, then a run beside others comes to what it comes to alone when the same happens to it: it waits
for the same or ends with the same result, has asked the runtime and the store the same, and leaves the same
files, the same marker and the same connectivity.

Two things can tell a run that it was not alone. Waiting for a slot takes time, in which a marker that was
there from the start may expire: so it has to be found live in both places, or in none. And a staging root
that leads back through a directory that is missing leads nowhere until another run has made that
directory: so the root has to stand from the start.

Key definitions: `Undisturbed`.
Key theorems: `undisturbed`, `sample_disturbed`.
-/
import RunDispatch.Proofs.Worker.Beside

namespace RunDispatch.Worker

open Staging (Site Proper)

/-! ### What a run comes to -/

/-- Whether a run of a request came to the same among others (run `i`, in `b`) as alone (run 0, in `a`), each
with what has been done by then. -/
structure Undisturbed (root : String) (i : Nat) (q : Request) (a b : List Entry × Worker) : Prop where
  /-- It waits for the same, or has ended with the same result. -/
  phase : ∃ r r', a.2.run? 0 = some r ∧ b.2.run? i = some r' ∧ r'.phase = r.phase
  /-- It has done the same. -/
  deeds : deedsOf i b.1 = deedsOf 0 a.1
  /-- The runtime was asked the same about its container, in the same order, by whatever run. -/
  asked : askedOf q.containerName (allDeeds b.1) = askedOf q.containerName (allDeeds a.1)
  /-- A marker lies under its name in both places or in none. -/
  marker : (b.2.shared.markers.entries.find? q.containerName).isSome =
    (a.2.shared.markers.entries.find? q.containerName).isSome
  /-- The marker is as old unless it is the run's own. -/
  unheld : (∀ r, a.2.run? 0 = some r → r.holds = false) →
    b.2.shared.markers.entries.find? q.containerName = a.2.shared.markers.entries.find? q.containerName
  /-- Its files are the same. -/
  files : ∀ kind, b.2.shared.disk.tree.entryAt (Staging.pathFor root kind q.containerName) =
    a.2.shared.disk.tree.entryAt (Staging.pathFor root kind q.containerName)
  /-- The same connectivity is stored of its connector, whatever was in the store before. -/
  connectivity : ∀ d : Store.Database, (d.after (allDeeds b.1)).connectivity? q.owner q.connector =
    (d.after (allDeeds a.1)).connectivity? q.owner q.connector

/-- A run that is beside the one that is alone, and does not wait for a slot, has come to the same. -/
theorem Beside.comesTo {setup : Run.Setup} {site : Site setup.root} {requests : List Request} {q : Request}
    {m₀ : Markers} {i : Nat} {log log' : List Entry} {v w : Worker} {r r' : Run}
    (h : Beside site m₀ i log log' v w r r') (hq : requests[i]? = some q) (hn : Proper q.containerName)
    (hr : r.request = q) (hw : ∀ b, r'.phase ≠ .queued b)
    (hnames : (requests.map (·.containerName)).Nodup)
    (hconnectors : (requests.map fun q => (q.owner, q.connector)).Nodup)
    (hlog : ∀ e ∈ log, ∃ p, e.Own [q] p) (hlog' : ∀ e ∈ log', ∃ p, e.Own requests p) :
    Undisturbed setup.root i q (log, v) (log', w) := by
  have hname : r.name = q.containerName := congrArg Request.containerName hr
  have htree := h.tree
  have hheld := h.marked.held
  have hfree := h.marked.free
  rw [hname] at htree hheld hfree
  obtain ⟨htwin, hdeeds⟩ : Run.Twin r r' ∧ deedsOf i log' = deedsOf 0 log := by
    cases h.level with
    | abreast htwin _ hl => exact ⟨htwin, hl⟩
    | waiting b htwin =>
      cases htwin
      exact absurd rfl (hw b)
  refine ⟨⟨r, r', h.run, h.run', ?_⟩, hdeeds, ?_, ?_, fun hh => hfree (hh r h.run), ?_, fun d => ?_⟩
  · cases htwin
    rfl
  · rw [askedOf_eq hlog' hnames hq, askedOf_eq hlog (i := 0) (by simp) rfl, hdeeds]
  · cases hh : r.holds with
    | true => rw [(hheld hh).1, (hheld hh).2]
    | false => rw [hfree hh]
  · exact fun kind => htree.entryAt hn kind
  · have halone := sameFor_after hlog (i := 0) (by simp) rfl (d := d) ⟨rfl, rfl⟩
    have hbeside := sameFor_after hlog' hconnectors hq (d := d) ⟨rfl, rfl⟩
    rw [hbeside.connectivity?, halone.connectivity?, hdeeds]

/-- **Runs of different names do not affect each other**: a run that does not wait for a slot has come to the
same among others, in whatever order things happened to them, as alone. The root of the staged files leads
to a directory at the start, and a marker that lay under the name then was live both when the run got its
slot among others and when it got it alone, or in neither. -/
theorem undisturbed {setup : Run.Setup} (site : Site setup.root) {shared : Run.Shared}
    (hs : site.Stands shared.disk.tree) (hf : 0 < shared.slots.free) {requests : List Request}
    (hvalid : ∀ p ∈ requests, Container.checkName p.containerName = .ok ())
    (hnames : (requests.map (·.containerName)).Nodup)
    (hconnectors : (requests.map fun p => (p.owner, p.connector)).Nodup) {i : Nat} {q : Request}
    (hq : requests[i]? = some q) {turns : List Turn}
    (hcalm : ∀ t ∈ turns, t.run = i → t.matter.event.isCalm = true) {alone : List Turn}
    (ha : ∀ a ∈ alone, a.run = 0)
    (hscript : alone.map (·.matter) = script i (spawned setup shared requests) turns)
    (hl : EquallyLive shared.markers q.containerName
      ((together ([], spawned setup shared [q]) alone).2.claimedAt? 0)
      ((together ([], spawned setup shared requests) turns).2.claimedAt? i))
    (hw : ∀ r b, (together ([], spawned setup shared requests) turns).2.run? i = some r →
      r.phase ≠ .queued b) :
    Undisturbed setup.root i q (together ([], spawned setup shared [q]) alone)
      (together ([], spawned setup shared requests) turns) := by
  have hproper : ∀ p ∈ requests, Proper p.containerName :=
    fun p hp => Staging.proper_of_checkName (hvalid p hp)
  have hv : Manned setup [q] (spawned setup shared [q]) := manned_spawned
  have hm : Manned setup requests (spawned setup shared requests) := manned_spawned
  obtain ⟨r, r', h⟩ := (Beside.start hs hf hq).together hv hm hproper hnames hcalm ha hscript hl
  have halone : Manned setup [q] (together ([], spawned setup shared [q]) alone).2 := hv.together alone
  have hr := halone.2 0 r h.run
  have hrequest := List.mem_singleton.mp (List.mem_of_getElem? hr.2)
  exact h.comesTo hq (hproper q (List.mem_of_getElem? hq)) hrequest (fun b => hw r' b h.run') hnames
    hconnectors (together_own alone hv (by simp)) (together_own turns hm (by simp))

/-! ### Two runs and one slot -/

def secondRequest : Request :=
  { Run.sampleRequest with
    connector := ⟨List.replicate 32 ⟨2, by decide⟩, List.length_replicate⟩
    kind := .healthcheck
    containerName := "d" }

def samplePair : List Request := [Run.sampleRequest, secondRequest]

def besideSample (setup : Run.Setup) (shared : Run.Shared) (turns : List Turn) : List Entry × Worker :=
  together ([], spawned setup shared samplePair) turns

/-- What happens to the second run, when it happens to it alone. -/
def sampleScript (setup : Run.Setup) (shared : Run.Shared) (turns : List Turn) : List Turn :=
  (script 1 (spawned setup shared samplePair) turns).map fun x => ⟨0, 0, x⟩

def aloneSample (setup : Run.Setup) (shared : Run.Shared) (turns : List Turn) : List Entry × Worker :=
  together ([], spawned setup shared [secondRequest]) (sampleScript setup shared turns)

/-- The second run waits for the slot until the time of the first is up. While it stages its payload the store
answers what it has not asked yet, and then its own time is up. -/
def oneAfterTheOther : List Turn :=
  [⟨0, 0, ⟨.configuration (.ok []), []⟩⟩, ⟨1, 1, ⟨.configuration (.ok []), []⟩⟩, ⟨1000, 0, ⟨.timeout, []⟩⟩,
    ⟨3000, 1, ⟨.slot, []⟩⟩, ⟨3001, 1, ⟨.file, []⟩⟩, ⟨3002, 1, ⟨.stored (.ok ()), []⟩⟩,
    ⟨4000, 1, ⟨.timeout, []⟩⟩, ⟨4001, 1, ⟨.container .done, []⟩⟩]

def oneSlot : Run.Shared := { Run.sampleShared with slots := ⟨1, [], []⟩ }

def sampleSite : Site Run.sampleSetup.root := ⟨[], ["r"], [], by decide, by decide⟩

theorem sample_undisturbed :
    (sampleSite.Stands oneSlot.disk.tree ∧ 0 < oneSlot.slots.free ∧
      (∀ p ∈ samplePair, Container.checkName p.containerName = .ok ()) ∧
      (samplePair.map (·.containerName)).Nodup ∧ (samplePair.map fun p => (p.owner, p.connector)).Nodup ∧
      ((besideSample Run.sampleSetup oneSlot oneAfterTheOther).2.run? 1).map (·.phase) =
        some (.ended (.error (.timeout "d" 1000)))) ∧
    Undisturbed "r" 1 secondRequest (aloneSample Run.sampleSetup oneSlot oneAfterTheOther)
      (besideSample Run.sampleSetup oneSlot oneAfterTheOther) := by
  have hs : sampleSite.Stands oneSlot.disk.tree := ⟨Staging.Tree.grounded_empty, rfl⟩
  have hvalid : ∀ p ∈ samplePair, Container.checkName p.containerName = .ok () := by decide
  have hnames : (samplePair.map (·.containerName)).Nodup := by decide
  have hconnectors : (samplePair.map fun p => (p.owner, p.connector)).Nodup := by decide
  have hp : ((besideSample Run.sampleSetup oneSlot oneAfterTheOther).2.run? 1).map (·.phase) =
      some (.ended (.error (.timeout "d" 1000))) := by decide +kernel
  refine ⟨⟨hs, by decide, hvalid, hnames, hconnectors, hp⟩, ?_⟩
  refine undisturbed sampleSite hs (by decide) hvalid hnames hconnectors rfl (by decide) ?_ ?_ ?_ ?_
  · intro a ha
    obtain ⟨x, -, rfl⟩ := List.mem_map.mp ha
    rfl
  · rw [sampleScript, List.map_map]
    exact List.map_id _
  · exact fun _ _ _ _ => Iff.rfl
  · intro r b hr hb
    rw [besideSample, hr, Option.map_some, hb] at hp
    cases hp

/-- A marker under the name of the second run, set at the start. -/
def markedSlot : Run.Shared := { oneSlot with markers := (Markers.empty 2000).set 0 "d" }

/-- A staging root that leads back through a directory. -/
def backwards : Run.Setup := { Run.sampleSetup with root := "m/../r" }

/-- The directory that the root goes through is missing, and a directory lies where the second run stages its
payload. -/
def obstructed : Run.Shared :=
  { Run.sampleShared with
    disk := .sound ⟨[(["r"], .directory), (["r", "connector-data"], .directory),
      (["r", "connector-data", "config"], .directory),
      (["r", "connector-data", "config", "d.json"], .directory)]⟩ }

/-- The first run makes the directories above its payload before the second stages its own. -/
def directoriesFirst : List Turn :=
  [⟨0, 0, ⟨.configuration (.ok []), []⟩⟩, ⟨1, 0, ⟨.file, []⟩⟩, ⟨2, 1, ⟨.configuration (.ok []), []⟩⟩,
    ⟨3, 1, ⟨.file, []⟩⟩, ⟨4, 1, ⟨.file, []⟩⟩, ⟨5, 1, ⟨.file, []⟩⟩, ⟨6, 1, ⟨.cancel, []⟩⟩,
    ⟨7, 1, ⟨.container .done, []⟩⟩]

/-- **What a run can tell from others.** A marker that is live at the start expires while the run waits for its
slot, so that it launches what it would not launch alone; and a staging root that leads nowhere alone leads
somewhere once another run has made the directory on its way. -/
theorem sample_disturbed :
    ((∀ p ∈ samplePair, Container.checkName p.containerName = .ok ()) ∧
      (samplePair.map (·.containerName)).Nodup ∧
      (samplePair.map fun p => (p.owner, p.connector)).Nodup ∧
      (∀ t ∈ oneAfterTheOther ++ directoriesFirst, t.matter.event.isCalm = true)) ∧
    (((aloneSample Run.sampleSetup markedSlot oneAfterTheOther).2.run? 0).map (·.phase) =
        some (.ended (.ok ⟨"d", .healthcheck, .ok, false, false⟩)) ∧
      ((besideSample Run.sampleSetup markedSlot oneAfterTheOther).2.run? 1).map (·.phase) =
        some (.ended (.error (.timeout "d" 1000)))) ∧
    (((aloneSample backwards obstructed directoriesFirst).2.run? 0).map (·.phase) =
        some (.ended (.error (.staging
          (.of .write "m/../r/connector-data/config/d.json" .isDirectory)))) ∧
      ((besideSample backwards obstructed directoriesFirst).2.run? 1).map (·.phase) =
        some (.ended (.error (.cancelled "d")))) := by
  decide +kernel

end RunDispatch.Worker
