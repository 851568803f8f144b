/-
# What a cleanup removes

A cleanup clears the derived paths of a connector: those of the configuration and the catalog of each of its
operations, in order. It touches nothing else: no other file, no marker, no run, and it calls nobody. The
derived names of two connectors differ, so their cleanups have no file in common, and it does not matter
which comes first.

Key definitions: `derived`, `derivedPaths`, `Worker.foundBy`, `Worker.Cleans`.
Key theorems: `unstageAll_clear`, `Worker.cleanup_clear`, `Worker.cleans`.
-/
import RunDispatch.Proofs.Acceptance
import RunDispatch.Proofs.Staging.Clearing
import RunDispatch.Proofs.Worker.Together
import RunDispatch.Simulation.Rehearsal

namespace RunDispatch

open Staging (Disk PayloadKey PayloadKind StagingError Tree clear isFine strip survey taken verdict Truthful)

/-! ### The derived payloads of a connector -/

/-- The payloads of a connector's operations under their derived names, in the order in which they are
removed. -/
def derived (id : Connector.Id) : List PayloadKey :=
  Operation.all.flatMap fun kind => PayloadKind.all.map fun payload => (payload, Container.nameFor id kind)

def derivedPaths (root : String) (id : Connector.Id) : List String :=
  Operation.all.flatMap fun kind =>
    PayloadKind.all.map fun payload => Staging.pathFor root payload (Container.nameFor id kind)

theorem derivedPaths_eq (root : String) (id : Connector.Id) :
    derivedPaths root id = (derived id).map (·.path root) := by
  simp [derivedPaths, derived, List.map_flatMap, PayloadKey.path, Function.comp_def]

theorem mem_derived {id : Connector.Id} {k : PayloadKey} (h : k ∈ derived id) :
    ∃ kind, k.2 = Container.nameFor id kind := by
  obtain ⟨kind, -, h⟩ := List.mem_flatMap.mp h
  obtain ⟨payload, -, rfl⟩ := List.mem_map.mp h
  exact ⟨kind, rfl⟩

theorem derived_no_slash (id : Connector.Id) : ∀ k ∈ derived id, '/' ∉ k.2.toList := by
  intro k hk
  obtain ⟨kind, hkind⟩ := mem_derived hk
  rw [hkind]
  exact Staging.not_slash_of_checkName
    ((Container.checkName_eq_ok_iff _).mpr (Container.wellNamed_nameFor id kind))

theorem derived_nodup (id : Connector.Id) : (derived id).Nodup := by
  have apart : ∀ {a b : Operation}, a ≠ b → Container.nameFor id a ≠ Container.nameFor id b :=
    fun h he => h (Container.nameFor_injective he).2
  simp [derived, Operation.all, PayloadKind.all, apart]

theorem derived_disjoint {a b : Connector.Id} (h : a ≠ b) : ∀ k ∈ derived a, k ∉ derived b := by
  intro k ha hb
  obtain ⟨kind, hkind⟩ := mem_derived ha
  obtain ⟨kind', hkind'⟩ := mem_derived hb
  exact h (Container.nameFor_injective (hkind.symm.trans hkind')).1

/-! ### A cleanup is a clearing -/

/-- The operations of a connector are cleared one after another. -/
theorem unstageAll_clear (root : String) (id : Connector.Id) (d : Disk) (removed : Nat)
    (kinds : List Operation) :
    Worker.unstageAll root id d removed kinds =
      clear d removed (kinds.flatMap fun kind =>
        PayloadKind.all.map fun payload => Staging.pathFor root payload (Container.nameFor id kind)) := by
  induction kinds generalizing d removed with
  | nil => rfl
  | cons kind rest ih =>
    have first := Staging.clear_add d removed 0
      (PayloadKind.all.map fun payload => Staging.pathFor root payload (Container.nameFor id kind))
    rw [List.flatMap_cons, Staging.clear_append, Worker.unstageAll, Staging.unstage,
      Staging.unstageKinds_clear]
    rw [Nat.add_zero] at first
    rw [first]
    generalize clear d 0 _ = r
    obtain ⟨d', result⟩ := r
    cases result with
    | ok n => exact ih d' (removed + n)
    | error e => rfl

namespace Worker

theorem cleanup_clear {w : Worker} (h : w.setup.activityTimeout ≠ 0) (id : Connector.Id) :
    w.cleanup id =
      ({ w with shared.disk := (clear w.shared.disk 0 (derivedPaths w.setup.root id)).1 },
        (clear w.shared.disk 0 (derivedPaths w.setup.root id)).2.mapError Run.Failure.staging) := by
  rw [cleanup, if_neg h, unstageAll_clear]
  rfl

/-- What each removal of a cleanup comes to, on the tree as it is and with the faults in turn. -/
def foundBy (w : Worker) (id : Connector.Id) : List (String × Option Staging.OsError) :=
  survey w.shared.disk (derivedPaths w.setup.root id)

/-- Whether the files of a worker say that nothing is at a derived path only where that is so. -/
def TruthfulFor (w : Worker) (id : Connector.Id) : Prop :=
  Truthful w.shared.disk (derivedPaths w.setup.root id)

section Cleanups

variable {w : Worker} {id other : Connector.Id}

/-- What a cleanup that has time does: it strips the tree of the paths whose removal succeeds, up to the
first failure. -/
theorem cleanup_eq (hw : w.setup.activityTimeout ≠ 0) (id : Connector.Id) :
    (∃ disk, (w.cleanup id).1 = { w with shared.disk := disk }) ∧
      (w.cleanup id).1.shared.disk.tree = (taken (w.foundBy id)).foldl strip w.shared.disk.tree ∧
      (w.cleanup id).2 = (verdict 0 (w.foundBy id)).mapError Run.Failure.staging := by
  have hclear := cleanup_clear hw id
  unfold foundBy
  rw [derivedPaths_eq] at hclear ⊢
  obtain ⟨htree, hresult⟩ := Staging.clear_eq (derived_no_slash id) (derived_nodup id) w.shared.disk 0
  rw [hclear]
  exact ⟨⟨_, rfl⟩, htree, congrArg (Except.mapError Run.Failure.staging) hresult⟩

theorem map_fst_foundBy (w : Worker) (id : Connector.Id) :
    (w.foundBy id).map Prod.fst = derivedPaths w.setup.root id :=
  Staging.map_fst_survey _ _

theorem cleanup_of_fine (hw : w.setup.activityTimeout ≠ 0) (h : ∀ x ∈ w.foundBy id, isFine x.2 = true) :
    (w.cleanup id).2 = .ok ((w.foundBy id).countP fun x => x.2.isNone) := by
  rw [(cleanup_eq hw id).2.2, Staging.verdict_of_fine h, Nat.zero_add]
  rfl

theorem cleanup_of_first (hw : w.setup.activityTimeout ≠ 0)
    {a b : List (String × Option Staging.OsError)} {path : String} {e : Staging.OsError}
    (hfound : w.foundBy id = a ++ (path, some e) :: b) (ha : ∀ x ∈ a, isFine x.2 = true)
    (he : e ≠ .notFound) :
    (w.cleanup id).1.shared.disk.tree = (taken a).foldl strip w.shared.disk.tree ∧
      (w.cleanup id).2 = .error (.staging (.of .remove path e)) := by
  obtain ⟨-, htree, hresult⟩ := cleanup_eq hw id
  rw [htree, hresult, hfound, Staging.taken_of_first ha he, Staging.verdict_of_first ha he]
  exact ⟨rfl, rfl⟩

theorem taken_keys (w : Worker) (id : Connector.Id) :
    ∃ keys : List PayloadKey, (∀ k ∈ keys, k ∈ derived id) ∧
      taken (w.foundBy id) = keys.map (·.path w.setup.root) := by
  have paths := Staging.taken_sublist (w.foundBy id)
  rw [map_fst_foundBy, derivedPaths_eq] at paths
  obtain ⟨keys, hkeys, htaken⟩ := List.sublist_map_iff.mp paths
  exact ⟨keys, fun k hk => hkeys.subset hk, htaken⟩

/-- What is found later is left by what is removed at first. -/
theorem entryAt_later {a b : List (String × Option Staging.OsError)} (h : w.foundBy id = a ++ b)
    {x : String × Option Staging.OsError} (hx : x ∈ b) (t : Tree) :
    ((taken a).foldl strip t).entryAt x.1 = t.entryAt x.1 := by
  have paths := map_fst_foundBy w id
  rw [h, List.map_append, derivedPaths_eq] at paths
  obtain ⟨ka, kb, hderived, ha, hb⟩ := List.map_eq_append_iff.mp paths.symm
  obtain ⟨keys, hkeys, htaken⟩ := List.sublist_map_iff.mp (ha ▸ Staging.taken_sublist a)
  have slash := derived_no_slash id
  have nodup := derived_nodup id
  rw [hderived] at slash nodup
  have hpath : x.1 ∈ kb.map (·.path w.setup.root) := hb ▸ List.mem_map_of_mem hx
  obtain ⟨k, hk, hkx⟩ := List.mem_map.mp hpath
  rw [htaken, ← hkx]
  exact Staging.entryAt_stripped_apart (fun l hl => slash l (List.mem_append_left _ (hkeys.subset hl)))
    (slash k (List.mem_append_right _ hk))
    fun h => List.disjoint_of_nodup_append nodup (hkeys.subset h) hk

end Cleanups

/-! ### Cleanups of two connectors -/

section Two

variable {w : Worker} {id other : Connector.Id}

theorem facing_cleanup (hw : w.setup.activityTimeout ≠ 0) (id : Connector.Id)
    (faults : List (Option Staging.Fault)) :
    (w.cleanup id).1.facing faults =
      { w with shared.disk := ⟨(taken (w.foundBy id)).foldl strip w.shared.disk.tree, faults⟩ } := by
  obtain ⟨⟨disk, hframe⟩, htree, -⟩ := cleanup_eq hw id
  rw [← htree, hframe]
  rfl

/-- What another cleanup finds does not depend on whether a connector was cleaned up. -/
theorem foundBy_cleanup (hw : w.setup.activityTimeout ≠ 0) (hne : id ≠ other)
    (faults : List (Option Staging.Fault)) :
    ((w.cleanup id).1.facing faults).foundBy other = (w.facing faults).foundBy other := by
  obtain ⟨keys, hkeys, htaken⟩ := taken_keys w id
  rw [facing_cleanup hw, htaken]
  simp only [foundBy, facing, derivedPaths_eq]
  exact Staging.survey_stripped (fun k hk => derived_no_slash id k (hkeys k hk))
    (derived_no_slash other) (fun k hk => derived_disjoint hne k (hkeys k hk)) _ _

theorem not_leadsTo_derived (hne : id ≠ other) {root : String} {t : Tree} {path path' : String}
    {p : Staging.Place} (hpath : path ∈ derivedPaths root id) (hpath' : path' ∈ derivedPaths root other)
    (h : t.LeadsTo path p) : ¬ t.LeadsTo path' p := by
  rw [derivedPaths_eq] at hpath hpath'
  obtain ⟨k, hk, rfl⟩ := List.mem_map.mp hpath
  obtain ⟨l, hl, rfl⟩ := List.mem_map.mp hpath'
  refine Staging.not_leadsTo_payloads (derived_no_slash id k hk) (derived_no_slash other l hl) ?_ h
  rintro rfl
  exact derived_disjoint hne _ hk hl

/-- **Two cleanups come to the same in either order**, each with the faults that it meets. -/
theorem cleanup_comm (hw : w.setup.activityTimeout ≠ 0) (hne : id ≠ other)
    (faults : List (Option Staging.Fault)) :
    let second := ((w.cleanup id).1.facing faults).cleanup other
    let swapped := (((w.facing faults).cleanup other).1.facing w.shared.disk.faults).cleanup id
    second.1.facing [] = swapped.1.facing [] ∧
      second.2 = ((w.facing faults).cleanup other).2 ∧ swapped.2 = (w.cleanup id).2 := by
  intro second swapped
  have hw' : (w.facing faults).setup.activityTimeout ≠ 0 := hw
  have hsecond : ((w.cleanup id).1.facing faults).setup.activityTimeout ≠ 0 := by
    rwa [facing_cleanup hw]
  have hswapped : (((w.facing faults).cleanup other).1.facing
      w.shared.disk.faults).setup.activityTimeout ≠ 0 := by
    rwa [facing_cleanup hw']
  -- Each cleanup finds what it would find if it were the first.
  have hfound := foundBy_cleanup hw hne faults
  have hfound' := foundBy_cleanup hw' hne.symm w.shared.disk.faults
  have trees : (taken ((w.facing faults).foundBy other)).foldl strip
      ((taken (w.foundBy id)).foldl strip w.shared.disk.tree) =
      (taken (w.foundBy id)).foldl strip
        ((taken ((w.facing faults).foundBy other)).foldl strip w.shared.disk.tree) := by
    obtain ⟨keys, hkeys, htaken⟩ := taken_keys w id
    obtain ⟨keys', hkeys', htaken'⟩ := taken_keys (w.facing faults) other
    rw [htaken, htaken']
    exact Staging.stripped_comm (fun k hk => derived_no_slash id k (hkeys k hk))
      (fun k hk => derived_no_slash other k (hkeys' k hk)) _
  refine ⟨?_, ?_, ?_⟩
  · rw [facing_cleanup hsecond, facing_cleanup hswapped, hfound, hfound', facing_cleanup hw,
      facing_cleanup hw']
    exact congrArg (fun t => { w with shared.disk := ⟨t, []⟩ }) trees
  · rw [(cleanup_eq hsecond other).2.2, (cleanup_eq hw' other).2.2, hfound]
  · rw [(cleanup_eq hswapped id).2.2, (cleanup_eq hw id).2.2, hfound']
    rfl

end Two

/-! ### What a cleanup does -/

/-- What a cleanup does that has time. -/
structure Cleans (w : Worker) (id : Connector.Id) : Prop where
  /-- The worker is as it was, but for its files. -/
  frame : ∃ disk, (w.cleanup id).1 = { w with shared.disk := disk }
  /-- Nobody is called: around the worker only time passes. -/
  around : ∀ r : Simulation.Rehearsal, r.worker = w → r.agenda.next? (r.now + 1) = none →
    r.cleanup id = ({ r with worker := (w.cleanup id).1, now := r.now + 1 }, (w.cleanup id).2)
  /-- If the cleanup succeeds, nothing is left at the derived paths, and what was there is counted. -/
  removes : ∀ k, (w.cleanup id).2 = .ok k → w.TruthfulFor id →
    (∀ path ∈ derivedPaths w.setup.root id, (w.cleanup id).1.shared.disk.tree.entryAt path = none) ∧
      k = (derivedPaths w.setup.root id).countP fun path => (w.shared.disk.tree.entryAt path).isSome
  /-- Then another cleanup, unless it is refused, finds nothing to remove. -/
  again : ∀ k, (w.cleanup id).2 = .ok k → w.TruthfulFor id →
    ∀ faults : List (Option Staging.Fault), (∀ f, some f ∈ faults → f.error = .notFound) →
      (((w.cleanup id).1.facing faults).cleanup id).2 = .ok 0
  /-- No place is touched but those to which the derived paths lead. -/
  others : ∀ p, (∀ path ∈ derivedPaths w.setup.root id, ¬ w.shared.disk.tree.LeadsTo path p) →
    (w.cleanup id).1.shared.disk.tree.find? p = w.shared.disk.tree.find? p
  /-- If a removal fails, and not because there is nothing to remove, the first that does is reported. The
  paths before it are cleared, and it and those after it are left, as are all other places. -/
  stops : (∃ x ∈ w.foundBy id, x.2 ≠ none ∧ x.2 ≠ some .notFound) →
    ∃ a path e b, w.foundBy id = a ++ (path, some e) :: b ∧
      (∀ x ∈ a, x.2 = none ∨ x.2 = some .notFound) ∧ e ≠ .notFound ∧
      (w.cleanup id).2 = .error (.staging (.of .remove path e)) ∧
      (w.TruthfulFor id → ∀ x ∈ a, (w.cleanup id).1.shared.disk.tree.entryAt x.1 = none) ∧
      (∀ x ∈ (path, some e) :: b, (w.cleanup id).1.shared.disk.tree.entryAt x.1 =
        w.shared.disk.tree.entryAt x.1) ∧
      ∀ p, (∀ x ∈ a, ¬ w.shared.disk.tree.LeadsTo x.1 p) →
        (w.cleanup id).1.shared.disk.tree.find? p = w.shared.disk.tree.find? p
  /-- The derived paths of another connector lead to other places. -/
  apart : ∀ other, id ≠ other → ∀ path ∈ derivedPaths w.setup.root id,
    ∀ path' ∈ derivedPaths w.setup.root other, ∀ p, w.shared.disk.tree.LeadsTo path p →
      ¬ w.shared.disk.tree.LeadsTo path' p
  /-- It does not matter which of two connectors is cleaned up first. -/
  commutes : ∀ other, id ≠ other → ∀ faults,
    let second := ((w.cleanup id).1.facing faults).cleanup other
    let swapped := (((w.facing faults).cleanup other).1.facing w.shared.disk.faults).cleanup id
    second.1.facing [] = swapped.1.facing [] ∧
      second.2 = ((w.facing faults).cleanup other).2 ∧ swapped.2 = (w.cleanup id).2

section Cleaning

variable {w : Worker} {id : Connector.Id}

/-- A rehearsal in which nothing is due lets the instant pass. -/
theorem settle_of_idle {r : Simulation.Rehearsal} (h : r.agenda.next? (r.now + 1) = none) :
    r.settle = { r with now := r.now + 1 } := by
  have idle : ∀ fuel, Simulation.Rehearsal.runUntil (fun _ => false) (r.now + 1) fuel r = r := by
    intro fuel
    cases fuel with
    | zero => rfl
    | succ fuel =>
      rw [Simulation.Rehearsal.runUntil, h]
      rfl
  rw [Simulation.Rehearsal.settle, Simulation.Rehearsal.sleep, Simulation.Rehearsal.advance, idle]

theorem has_time (h : ∀ name ms, (w.cleanup id).2 ≠ .error (.timeout name ms)) :
    w.setup.activityTimeout ≠ 0 := by
  intro hzero
  refine h id.display 0 ?_
  rw [cleanup, if_pos hzero]

theorem fine_of_ok (hw : w.setup.activityTimeout ≠ 0) {k : Nat} (h : (w.cleanup id).2 = .ok k) :
    ∀ x ∈ w.foundBy id, isFine x.2 = true := by
  rcases Staging.fine_or_first (w.foundBy id) with hfine | ⟨a, path, e, b, hfound, ha, he⟩
  · exact hfine
  · rw [(cleanup_of_first hw hfound ha he).2] at h
    cases h

theorem entryAt_of_ok (hw : w.setup.activityTimeout ≠ 0) (htrue : w.TruthfulFor id) {k : Nat}
    (h : (w.cleanup id).2 = .ok k) : ∀ path ∈ derivedPaths w.setup.root id,
      (w.cleanup id).1.shared.disk.tree.entryAt path = none := by
  intro path hpath
  obtain ⟨x, hx, rfl⟩ := List.mem_map.mp (map_fst_foundBy w id ▸ hpath)
  rw [(cleanup_eq hw id).2.1]
  exact Staging.entryAt_cleared htrue (fine_of_ok hw h) hx hx

/-- After a cleanup that succeeded another one succeeds and removes nothing, unless it is refused. -/
theorem cleanup_again (hw : w.setup.activityTimeout ≠ 0) (htrue : w.TruthfulFor id) {k : Nat}
    (h : (w.cleanup id).2 = .ok k) {faults : List (Option Staging.Fault)}
    (hfaults : ∀ f, some f ∈ faults → f.error = .notFound) :
    (((w.cleanup id).1.facing faults).cleanup id).2 = .ok 0 := by
  have hmissing : ∀ path ∈ derivedPaths w.setup.root id,
      ((Disk.sound (w.cleanup id).1.shared.disk.tree).remove path).2 = some .notFound := by
    intro path hpath
    have gone := entryAt_of_ok hw htrue h path hpath
    obtain ⟨x, hx, rfl⟩ := List.mem_map.mp (map_fst_foundBy w id ▸ hpath)
    have removable := Staging.removable_of_fine htrue hx (fine_of_ok hw h x hx)
    rw [(cleanup_eq hw id).2.1] at gone ⊢
    refine (Staging.removable_stripped removable).resolve_left ?_
    rw [Staging.remove_eq_none_iff, Tree.contentAt, gone]
    decide
  obtain ⟨⟨disk, hframe⟩, -, -⟩ := cleanup_eq hw id
  rw [hframe] at hmissing ⊢
  let again : Worker := facing { w with shared.disk := disk } faults
  have hfound : ∀ x ∈ again.foundBy id, x.2 = some .notFound :=
    Staging.survey_of_missing hmissing hfaults
  have hfine : ∀ x ∈ again.foundBy id, isFine x.2 = true := fun x hx =>
    Staging.isFine_iff.mpr (.inr (hfound x hx))
  have none_taken : (again.foundBy id).countP (fun x => x.2.isNone) = 0 :=
    List.countP_eq_zero.mpr fun x hx => by simp [hfound x hx]
  exact (cleanup_of_fine (w := again) hw hfine).trans (congrArg Except.ok none_taken)

/-- **A cleanup removes the derived files and only those.** -/
theorem cleans (h : ∀ name ms, (w.cleanup id).2 ≠ .error (.timeout name ms)) : w.Cleans id := by
  have hw := has_time h
  have htree := (cleanup_eq hw id).2.1
  constructor
  case frame => exact (cleanup_eq hw id).1
  case around =>
    rintro r rfl h
    exact Prod.ext (settle_of_idle h) rfl
  case removes =>
    intro k hk htrue
    refine ⟨entryAt_of_ok hw htrue hk, ?_⟩
    have hfine := fine_of_ok hw hk
    have counted := Except.ok.inj (hk.symm.trans (cleanup_of_fine hw hfine))
    exact counted.trans (Staging.countP_survey htrue hfine)
  case again => exact fun k hk htrue faults hfaults => cleanup_again hw htrue hk hfaults
  case others =>
    intro p hp
    rw [htree]
    refine Staging.find?_stripped fun path hpath => hp path ?_
    exact map_fst_foundBy w id ▸ (Staging.taken_sublist (w.foundBy id)).subset hpath
  case stops =>
    rintro ⟨x, hx, hbad⟩
    rcases Staging.fine_or_first (w.foundBy id) with hfine | ⟨a, path, e, b, hfound, ha, he⟩
    · exact absurd (Staging.isFine_iff.mp (hfine x hx)) (not_or.mpr hbad)
    · obtain ⟨htree, hresult⟩ := cleanup_of_first hw hfound ha he
      refine ⟨a, path, e, b, hfound, fun x hx => Staging.isFine_iff.mp (ha x hx), he, hresult, ?_⟩
      rw [htree]
      refine ⟨fun htrue x hx => ?_, fun x hx => entryAt_later hfound hx _, fun p hp => ?_⟩
      · have there : x ∈ w.foundBy id := hfound ▸ List.mem_append_left _ hx
        exact Staging.entryAt_cleared htrue ha hx there
      · refine Staging.find?_stripped fun path hpath => ?_
        obtain ⟨x, hx, rfl⟩ := List.mem_map.mp ((Staging.taken_sublist a).subset hpath)
        exact hp x hx
  case apart =>
    exact fun other hne path hpath path' hpath' p => not_leadsTo_derived hne hpath hpath'
  case commutes => exact fun other hne faults => cleanup_comm hw hne faults

end Cleaning

/-- A worker with one staged file of a connector, and with another file beside it. -/
def sampleLittered : Worker :=
  let folder := ["r", "connector-data", "config"]
  let check := Staging.fileName (Container.nameFor Run.sampleRequest.connector .check)
  { sample with shared.disk := .sound ⟨[(folder ++ [check], .file [0x61]),
      (folder ++ ["other.json"], .file []), (folder, .directory),
      (["r", "connector-data"], .directory), (["r"], .directory)]⟩ }

/-- The file is removed, and then nothing is left to remove. -/
theorem sample_cleans :
    (∀ name ms, (sampleLittered.cleanup Run.sampleRequest.connector).2 ≠ .error (.timeout name ms)) ∧
      (sampleLittered.cleanup Run.sampleRequest.connector).2 = .ok 1 ∧
      (((sampleLittered.cleanup Run.sampleRequest.connector).1.facing []).cleanup
        Run.sampleRequest.connector).2 = .ok 0 := by
  have done : (sampleLittered.cleanup Run.sampleRequest.connector).2 = .ok 1 := by decide +kernel
  have untimed : ∀ name ms,
      (sampleLittered.cleanup Run.sampleRequest.connector).2 ≠ .error (.timeout name ms) := by
    rw [done]
    nofun
  have truthful : sampleLittered.TruthfulFor Run.sampleRequest.connector :=
    Staging.truthful_of_faults (fun _ hf => absurd hf List.not_mem_nil) _
  exact ⟨untimed, done, (cleans untimed).again 1 done truthful [] nofun⟩

end Worker

end RunDispatch
