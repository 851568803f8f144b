/-
# What a container is told to read

A run stages its payloads under the staging root, and its container's command names them as they are seen
inside, where the root is mounted at a target. Both paths are made of the same relative path, which is
joined to the root on the one side and to the target on the other. So the command names a file for each
kind of payload that is staged, and no other, and what stands under that name in the container is the file
that the run guards (`Course.reads_staged`). Which kinds are staged is decided by the payloads that the
request has, and which the command names by its operation: a request that is complete has them agree.

Where a path leads is told by whether it starts at the top and by the names on it. A mount takes the ways
that begin with that of the target to those that begin with that of the root.

Key definitions: `isAbsolute`, `Way`, `way`, `hostWay?`.
Key theorems: `way_pathFor`, `hostWay?_pathFor`, `pathFor_injective`, `Settings.mountTarget_eq`,
`command_eq`, `Course.guarded`, `reads_staged`.
-/
import RunDispatch.Proofs.Run.Release
import RunDispatch.Worker

namespace RunDispatch

namespace Staging

/-! ### Ways -/

def isAbsolute (path : String) : Bool := path.toList.head? = some '/'

/-- Where a path leads: whether it starts at the top, and the names on it. -/
structure Way where
  fromTop : Bool
  names : List String
  deriving DecidableEq, Repr

def way (path : String) : Way := ⟨isAbsolute path, components path⟩

/-- Where the path of a container leads on the host if `root` is mounted at `target` there: nowhere, if it
does not lead into the mount. -/
def hostWay? (root target path : String) : Option Way :=
  if isAbsolute path = isAbsolute target ∧ components target <+: components path then
    some ⟨isAbsolute root, components root ++ (components path).drop (components target).length⟩
  else none

def namesOn (kind : PayloadKind) (name : String) : List String :=
  [dataFolder, kind.folder, fileName name]

section Payloads

variable {kind kind' : PayloadKind} {name name' : String}

theorem not_isAbsolute_relativePath (kind : PayloadKind) (h : '/' ∉ name.toList) :
    (relativePath kind name).toList.head? ≠ some '/' := by
  rw [relativePath_eq kind h]
  simp [dataFolder]

/-- A payload's path starts at the top if the root does. -/
theorem isAbsolute_pathFor (root : String) (h : '/' ∉ name.toList) :
    isAbsolute (pathFor root kind name) = isAbsolute root := by
  have hrel := not_isAbsolute_relativePath kind h
  by_cases hroot : root.toList = []
  · have hempty : root = "" := String.toList_injective hroot
    have hpath : pathFor root kind name = relativePath kind name := by
      rw [pathFor, joinPath, if_neg hrel, hempty]
      simp
    rw [hpath, hempty, isAbsolute, decide_eq_false hrel]
    rfl
  · have hhead (more : String) : (root ++ more).toList.head? = root.toList.head? := by
      obtain ⟨c, l, hl⟩ := List.exists_cons_of_ne_nil hroot
      rw [String.toList_append, hl]
      rfl
    rw [pathFor, joinPath, if_neg hrel, isAbsolute, isAbsolute]
    split
    · rw [hhead]
    · rw [String.append_assoc, hhead]

theorem way_pathFor (root : String) (h : '/' ∉ name.toList) :
    way (pathFor root kind name) = ⟨isAbsolute root, components root ++ namesOn kind name⟩ := by
  rw [way, isAbsolute_pathFor root h, components_pathFor root kind h]
  rfl

theorem components_relativePath (h : '/' ∉ name.toList) :
    components (relativePath kind name) = namesOn kind name := by
  have hrel := not_isAbsolute_relativePath kind h
  have hpath : pathFor "" kind name = relativePath kind name := by
    rw [pathFor, joinPath, if_neg hrel]
    simp
  rw [← hpath, components_pathFor "" kind h]
  rfl

/-- **What stands in a container** at the path of a payload under the target is what stands on the host at
its path under the root. -/
theorem hostWay?_pathFor (root target : String) (h : '/' ∉ name.toList) :
    hostWay? root target (pathFor target kind name) = some (way (pathFor root kind name)) := by
  have hinto : components target <+: components (pathFor target kind name) := by
    rw [components_pathFor target kind h]
    exact List.prefix_append _ _
  rw [hostWay?, if_pos ⟨isAbsolute_pathFor target h, hinto⟩, way_pathFor root h,
    components_pathFor target kind h, List.drop_left]
  rfl

theorem pathFor_injective {root : String} (h : '/' ∉ name.toList) (h' : '/' ∉ name'.toList)
    (he : pathFor root kind name = pathFor root kind' name') : kind = kind' ∧ name = name' := by
  have hc := congrArg components he
  rw [components_pathFor root kind h, components_pathFor root kind' h'] at hc
  have hnames := List.append_cancel_left hc
  simp only [List.cons.injEq, true_and, and_true] at hnames
  exact ⟨PayloadKind.folder_injective hnames.1, fileName_injective hnames.2⟩

end Payloads

end Staging

/-! ### Requests and settings -/

/-- A request that is complete has a catalog exactly if it writes. -/
theorem catalog_of_validate {q : Request} (h : q.validate = .ok ()) :
    q.catalog.isSome = q.kind.isWrite := by
  obtain ⟨-, -, hp⟩ := Staging.ok_of_bind h
  unfold Request.checkPayloads at hp
  split at hp
  · rename_i hw
    split at hp
    · cases hp
    · rename_i hc
      rw [hw]
      exact Option.isSome_iff_ne_none.mpr (by simpa using hc)
  · rename_i hw
    split at hp
    · cases hp
    · rename_i hc
      simp only [not_or, Bool.not_eq_true] at hc
      rw [hc.1]
      simpa using hw

theorem checkName_of_validate {q : Request} (h : q.validate = .ok ()) :
    Container.checkName q.containerName = .ok () := by
  obtain ⟨u, hn, -⟩ := Staging.ok_of_bind h
  unfold checkContainerName at hn
  cases hc : Container.checkName q.containerName with
  | error f =>
    rw [hc] at hn
    cases hn
  | ok u => rfl

/-- Without a target of its own, the staging root is mounted at its own path. -/
theorem Settings.mountTarget_eq {lookup : String → Option String} {temp : String} {s : Settings}
    (h : Settings.read lookup temp = .ok s) (ht : Settings.valueOf? lookup "MOUNT_TARGET" = none) :
    s.mountTarget = s.stagingRoot := by
  unfold Settings.read at h
  obtain ⟨port, -, h⟩ := Staging.ok_of_bind h
  dsimp only at h
  split at h
  · obtain ⟨url, -, h⟩ := Staging.ok_of_bind h
    obtain ⟨mountKind, -, h⟩ := Staging.ok_of_bind h
    obtain ⟨slots, -, h⟩ := Staging.ok_of_bind h
    split at h
    · cases h
    · obtain ⟨activityTimeout, -, h⟩ := Staging.ok_of_bind h
      obtain ⟨dispatchTtl, -, h⟩ := Staging.ok_of_bind h
      obtain ⟨stopGrace, -, h⟩ := Staging.ok_of_bind h
      obtain ⟨requestTimeout, -, h⟩ := Staging.ok_of_bind h
      obtain ⟨shutdownTimeout, -, h⟩ := Staging.ok_of_bind h
      cases h
      simp [ht]
  · cases h

/-! ### Command and files -/

namespace Run

open Staging

/-- **The command of a container** names one file for each kind of payload that the run stages, with the
option that bears the name of the kind. -/
theorem command_eq {q : Request} (hq : q.validate = .ok ()) (l : Layout) :
    command q l = q.kind.verb :: (payloadKinds q).flatMap fun kind =>
      ["--" ++ kind.folder, joinPath l.staging.target (relativePath kind q.stagingName)] := by
  have hcatalog := catalog_of_validate hq
  unfold command payloadKinds
  by_cases hw : q.kind.isWrite = true
  · obtain ⟨catalog, hc⟩ := Option.isSome_iff_exists.mp (hcatalog.trans hw)
    rw [if_pos hw, hc]
    rfl
  · have hc : q.catalog = none := by
      rw [← Option.not_isSome_iff_eq_none, hcatalog]
      exact hw
    rw [if_neg hw, hc]
    rfl

/-- A run that waits for its container to be made has staged its payloads. -/
theorem creating_of_call {setup : Setup} {r : Run} {spec : Container.Spec}
    (h : r.call? setup = some (.container (.create spec))) :
    r.phase = .living .creating ∧ spec = specFor r.request setup.layout := by
  unfold call? at h
  split at h
  all_goals try cases h
  rename_i stage hp
  obtain ⟨ask, ha, hask⟩ := Option.map_eq_some_iff.mp h
  cases hask
  unfold Container.Stage.ask? at ha
  split at ha <;> cases ha
  exact ⟨hp, rfl⟩

section Courses

variable {setup : Setup} {others : Shared → Shared → Prop} {number : Nat} {q : Request}
  {s₀ s : Shared} {log : List Deed} {r : Run} {spec : Container.Spec}

/-- **What a run guards** when its container is made: a file for each kind of payload, under the staging
root. -/
theorem Course.guarded (h : Course setup others number q s₀ log s r)
    (hc : r.call? setup = some (.container (.create spec))) :
    r.guarded.map (fun f => (f.kind, f.path)) =
      (payloadKinds q).map fun kind => (kind, pathFor setup.root kind q.stagingName) := by
  have hq : r.request = q := h.same.2
  have hstocked := h.stocked
  rw [Stocked, (creating_of_call hc).1] at hstocked
  have hpaths : ∀ f ∈ r.guarded,
      (f.kind, f.path) = (f.kind, pathFor setup.root f.kind q.stagingName) := by
    intro f hf
    rw [h.sound.paths f hf, payloadPath, hq]
  calc r.guarded.map (fun f => (f.kind, f.path))
      = r.guarded.map (fun f => (f.kind, pathFor setup.root f.kind q.stagingName)) :=
        List.map_congr_left hpaths
    _ = (r.guarded.map (·.kind)).map (fun kind => (kind, pathFor setup.root kind q.stagingName)) := by
        rw [List.map_map]
        rfl
    _ = _ := by rw [hstocked, hq]

end Courses

/-- **A container is told to read what is staged.** Of every request that is complete, under every staging
root and every layout of mounts: the command names a file for each payload that a run stages, of its kind,
and no other; and when the container of a run is made, these are the files that the run guards. Both
paths join the same relative path, one to the target of the mount and one to the root, so that what the
command names is the file that is guarded. With settings that name no target the two paths are one. The
relative path leads into the folder of its kind and to one name there, and those of other kinds or other
names lead elsewhere. -/
theorem reads_staged {q : Request} (hq : q.validate = .ok ()) (setup : Setup) :
    (∀ number configuration, command q setup.layout =
      q.kind.verb :: ((start number q).payloads configuration).flatMap fun payload =>
        ["--" ++ payload.1.folder,
          joinPath setup.layout.staging.target (relativePath payload.1 q.stagingName)]) ∧
    (∀ others number s₀ log s r spec, Course setup others number q s₀ log s r →
      r.call? setup = some (.container (.create spec)) →
      spec.command = q.kind.verb :: (r.guarded.flatMap fun f => ["--" ++ f.kind.folder,
        joinPath setup.layout.staging.target (relativePath f.kind q.stagingName)]) ∧
      (r.guarded.map (·.kind)).Nodup ∧
      ∀ f ∈ r.guarded, f.path = joinPath setup.root (relativePath f.kind q.stagingName) ∧
        hostWay? setup.root setup.layout.staging.target
          (joinPath setup.layout.staging.target (relativePath f.kind q.stagingName)) =
            some (way f.path)) ∧
    (∀ lookup temp settings, Settings.read lookup temp = .ok settings →
      Settings.valueOf? lookup "MOUNT_TARGET" = none → ∀ kind,
        (Worker.setupOf settings).layout.containerPath kind q.stagingName =
          pathFor (Worker.setupOf settings).root kind q.stagingName) ∧
    (∀ kind, way (relativePath kind q.stagingName) =
        ⟨false, ["connector-data", kind.folder, q.stagingName ++ ".json"]⟩ ∧
      q.stagingName ++ ".json" ≠ "..") ∧
    ∀ kind kind' name, Container.checkName name = .ok () →
      (relativePath kind q.stagingName = relativePath kind' name ∨
        ∃ root, pathFor root kind q.stagingName = pathFor root kind' name) →
      kind = kind' ∧ q.stagingName = name := by
  have hname : '/' ∉ q.stagingName.toList := not_slash_of_checkName (checkName_of_validate hq)
  refine ⟨?_, ?_, ?_, ?_, ?_⟩
  · intro number configuration
    have hkinds : ((start number q).payloads configuration).map (·.1) = payloadKinds q :=
      map_payloads (start number q) configuration
    rw [command_eq hq, ← hkinds, List.flatMap_map]
  · intro others number s₀ log s r spec h hc
    have hguarded := h.guarded hc
    obtain ⟨-, hspec⟩ := creating_of_call hc
    have hkinds : r.guarded.map (·.kind) = payloadKinds q := by
      have := congrArg (List.map Prod.fst) hguarded
      simpa only [List.map_map, Function.comp_def, List.map_id'] using this
    refine ⟨?_, ?_, ?_⟩
    · rw [hspec, h.same.2]
      show command q setup.layout = _
      rw [command_eq hq, ← hkinds, List.flatMap_map]
    · rw [hkinds]
      exact nodup_payloadKinds q
    · intro f hf
      have hpath : f.path = pathFor setup.root f.kind q.stagingName := by
        rw [h.sound.paths f hf, payloadPath, h.same.2]
      exact ⟨hpath, hpath ▸ hostWay?_pathFor setup.root setup.layout.staging.target hname⟩
  · intro lookup temp settings hread htarget kind
    show joinPath settings.mountTarget _ = joinPath settings.stagingRoot _
    rw [Settings.mountTarget_eq hread htarget]
  · intro kind
    refine ⟨?_, fileName_ne (by decide)⟩
    rw [way, components_relativePath hname, isAbsolute,
      decide_eq_false (not_isAbsolute_relativePath _ hname)]
    rfl
  · intro kind kind' name hchecked hpath
    have hname' := not_slash_of_checkName hchecked
    rcases hpath with hpath | ⟨root, hpath⟩
    · exact pathFor_injective hname hname' (congrArg (joinPath "") hpath)
    · exact pathFor_injective hname hname' hpath

def sampleMounted : Setup := ⟨"r", ⟨⟨.bind, "r", "/data/"⟩, none⟩, 1000, 10⟩

def sampleCreating : List Deed × Shared × Run :=
  Run.play sampleMounted ([], sampleShared, Run.start 0 sampleWrite)
    (stagingBoth ++ [(5, .container .done)])

theorem course_sampleCreating : Course sampleMounted (fun _ _ => False) 0 sampleWrite sampleShared
    sampleCreating.1 sampleCreating.2.1 sampleCreating.2.2 := by
  unfold sampleCreating
  exact Course.play _ .start

theorem sample_reads_staged :
    sampleWrite.validate = .ok () ∧
    (specFor sampleWrite sampleMounted.layout).command =
      ["write", "--config", "/data/connector-data/config/c.json",
        "--catalog", "/data/connector-data/catalog/c.json"] ∧
    hostWay? "r" "/data/" "/data/connector-data/catalog/c.json" =
      some (way "r/connector-data/catalog/c.json") := by
  have hq : sampleWrite.validate = .ok () := by decide +kernel
  have hguarded : sampleCreating.2.2.guarded =
      [⟨.config, "r/connector-data/config/c.json", false⟩,
        ⟨.catalog, "r/connector-data/catalog/c.json", false⟩] := by decide +kernel
  obtain ⟨-, hreads, -⟩ := reads_staged hq sampleMounted
  obtain ⟨hcommand, -, hways⟩ := hreads _ _ _ _ _ _ (specFor sampleWrite sampleMounted.layout)
    course_sampleCreating (by decide +kernel)
  rw [hguarded] at hcommand hways
  refine ⟨hq, hcommand.trans (by decide), ?_⟩
  exact (hways _ (.tail _ (.head _))).2

end Run

end RunDispatch
