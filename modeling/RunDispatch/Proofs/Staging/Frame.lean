/-
# The files that an operation leaves alone

A staged file is named after its run, so an operation on it leaves alone all files of other names,
wherever the staging root is and whatever lies there: making directories changes no file, and writing
or removing a file changes one file of that name at most.

Key definitions: `Tree.fileAt`, `SameBut`, `fileName`.
Key theorems: `Tree.makeDirectories_fileAt`, `Tree.getLast_of_locate`, `components_pathFor`,
`not_slash_of_checkName`, `Disk.write_sameBut`, `Disk.remove_sameBut`.
-/
import RunDispatch.Container.Name
import RunDispatch.Staging.Stager

namespace RunDispatch.Staging

theorem ok_of_bind {ε α β : Type} {x : Except ε α} {f : α → Except ε β} {b : β}
    (h : (x >>= f) = .ok b) : ∃ a, x = .ok a ∧ f a = .ok b := by
  cases x with
  | error e => cases h
  | ok a => exact ⟨a, rfl, h⟩

namespace Tree

/-- The content of the file at a place, if a file is there. -/
def fileAt (t : Tree) (p : Place) : Option Bytes :=
  match t.find? p with
  | some (.file content) => some content
  | _ => none

/-! ### Operations on a tree -/

theorem makeDirectory_fileAt {t u : Tree} {names : List String} (h : t.makeDirectory names = .ok u)
    (p : Place) : u.fileAt p = t.fileAt p := by
  obtain ⟨q, -, h⟩ := ok_of_bind h
  split at h
  · cases h
  · rename_i hq
    cases h
    simp only [fileAt, find?_put]
    by_cases hp : p = q ∧ p ≠ []
    · have hn : t.find? q = none := by simpa using hq
      rw [if_pos hp, hp.1, hn]
    · rw [if_neg hp]

/-- Directories that are made, wherever it stopped, change no file. -/
theorem makeDirectoriesFrom_fileAt (t : Tree) (names : List String) (above : Nat) (p : Place) :
    (t.makeDirectoriesFrom names above).1.fileAt p = t.fileAt p := by
  induction above generalizing names with
  | zero => rfl
  | succ above ih =>
    unfold makeDirectoriesFrom
    split
    · rename_i u hu
      exact makeDirectory_fileAt hu p
    · split
      · rename_i u e hu
        have := ih names.dropLast
        rwa [hu] at this
      · rename_i u hu
        have hup : u.fileAt p = t.fileAt p := by
          have := ih names.dropLast
          rwa [hu] at this
        split
        · rename_i v hv
          exact (makeDirectory_fileAt hv p).trans hup
        · exact hup
    · rfl

theorem makeDirectories_fileAt (t : Tree) (names : List String) (p : Place) :
    (t.makeDirectories names).1.fileAt p = t.fileAt p :=
  t.makeDirectoriesFrom_fileAt names names.length p

theorem getLast_of_locate {t : Tree} {names : List String} {p : Place} {last : String}
    (h : t.locate names = .ok p) (hl : names.getLast? = some last) (hd : last ≠ "..") :
    p.getLast? = some last := by
  unfold locate at h
  rw [hl] at h
  simp only at h
  obtain ⟨dir, -, h⟩ := ok_of_bind h
  rw [if_neg hd] at h
  split at h
  · cases h
  · cases h
    simp

theorem eq_of_openFile {t u : Tree} {names : List String} {p : Place}
    (h : t.openFile names = .ok (p, u)) : t.locate names = .ok p ∧ u = t.put p (.file []) := by
  obtain ⟨q, hq, h⟩ := ok_of_bind h
  split at h
  · cases h
  · cases h
    exact ⟨hq, rfl⟩

theorem eq_of_remove {t u : Tree} {names : List String} (h : t.remove names = .ok u) :
    ∃ p, t.locate names = .ok p ∧ u = t.erase p := by
  obtain ⟨q, hq, h⟩ := ok_of_bind h
  split at h
  · cases h
  · cases h
  · cases h
    exact ⟨q, hq, rfl⟩

theorem fileAt_put_of_ne {t : Tree} {p q : Place} (e : Entry) (h : q ≠ p) :
    (t.put p e).fileAt q = t.fileAt q := by
  simp [fileAt, find?_put, h]

theorem fileAt_erase_of_ne {t : Tree} {p q : Place} (h : q ≠ p) :
    (t.erase p).fileAt q = t.fileAt q := by
  simp [fileAt, find?_erase, h]

end Tree

/-! ### Names -/

/-- The name of a run's staged file, in the folder of its kind. -/
def fileName (name : String) : String := name ++ ".json"

/-- A container's name holds no slash. -/
theorem not_slash_of_checkName {name : String} (h : Container.checkName name = .ok ()) :
    '/' ∉ name.toList := by
  unfold Container.checkName at h
  cases hn : name.toList with
  | nil => simp
  | cons c r =>
    rw [hn] at h
    simp only at h
    split at h
    · cases h
    · split at h
      · cases h
      · split at h
        · rename_i ha
          intro hm
          have := List.all_eq_true.mp ha _ hm
          exact absurd this (by decide)
        · cases h

theorem fileName_injective {a b : String} (h : fileName a = fileName b) : a = b := by
  have hl := congrArg String.toList h
  simp only [fileName, String.toList_append] at hl
  exact String.toList_injective (List.append_cancel_right hl)

theorem length_fileName (name : String) : (fileName name).toList.length = name.toList.length + 5 := by
  simp [fileName]

theorem fileName_ne {name short : String} (h : short.toList.length < 5) : fileName name ≠ short := by
  intro he
  have := length_fileName name
  rw [he] at this
  omega

theorem not_slash_fileName {name : String} (h : '/' ∉ name.toList) :
    '/' ∉ (fileName name).toList := by
  simp [fileName, h]

theorem components_concat (before last : String) (hl : '/' ∉ last.toList) (h0 : last ≠ "")
    (h1 : last ≠ ".") : components (before ++ "/" ++ last) = components before ++ [last] := by
  have hs : (before ++ "/" ++ last).toList.splitOn '/' =
      before.toList.splitOn '/' ++ [last.toList] := by
    rw [String.toList_append, String.toList_append, List.append_assoc]
    rw [← List.splitOn_eq_singleton hl]
    exact List.splitOn_append_cons_self _ _
  unfold components
  rw [hs]
  simp [h0, h1]

/-- Where a payload lies under the staging root: in the folder of its kind. -/
theorem relativePath_eq (kind : PayloadKind) {name : String} (h : '/' ∉ name.toList) :
    relativePath kind name = dataFolder ++ "/" ++ kind.folder ++ "/" ++ fileName name := by
  have hf : joinPath dataFolder kind.folder = dataFolder ++ "/" ++ kind.folder := by
    cases kind <;> decide
  have hh : (name ++ ".json").toList.head? ≠ some '/' := fun hc =>
    not_slash_fileName h (List.mem_of_mem_head? hc)
  unfold relativePath
  rw [hf]
  unfold joinPath
  rw [if_neg hh, if_neg (by cases kind <;> decide)]
  rfl

theorem components_append_slash (before : String) : components (before ++ "/") = components before := by
  have hs : (before ++ "/").toList.splitOn '/' = before.toList.splitOn '/' ++ [[]] := by
    rw [String.toList_append]
    exact List.splitOn_append_cons_self _ _
  unfold components
  rw [hs]
  simp

theorem eq_append_slash {path : String} (h : path.toList.getLast? = some '/') :
    ∃ before, path = before ++ "/" := by
  obtain ⟨before, hb⟩ := List.getLast?_eq_some_iff.mp h
  refine ⟨String.ofList before, String.toList_injective ?_⟩
  rw [hb, String.toList_append, String.toList_ofList]
  rfl

/-- **The names on the path of a payload**: those of the staging root, the folder of all staged files, that
of the payload's kind, and the file of the run. -/
theorem components_pathFor (root : String) (kind : PayloadKind) {name : String}
    (h : '/' ∉ name.toList) : components (pathFor root kind name) =
      components root ++ [dataFolder, kind.folder, fileName name] := by
  have hdata : ∀ before, components (before ++ "/" ++ dataFolder) = components before ++ [dataFolder] :=
    fun before => components_concat before _ (by decide) (by decide) (by decide)
  have hpath : ∃ before, components before = components root ++ [dataFolder] ∧
      pathFor root kind name = before ++ "/" ++ kind.folder ++ "/" ++ fileName name := by
    unfold pathFor
    rw [relativePath_eq kind h]
    unfold joinPath
    have hrel : (dataFolder ++ "/" ++ kind.folder ++ "/" ++ fileName name).toList.head? ≠ some '/' := by
      simp [dataFolder]
    rw [if_neg hrel]
    split
    · rename_i hr
      refine ⟨root ++ dataFolder, ?_, by simp only [String.append_assoc]⟩
      rcases hr with hr | hr
      · rw [String.isEmpty_iff.mp hr]
        decide
      · obtain ⟨before, rfl⟩ := eq_append_slash hr
        rw [hdata, components_append_slash]
    · exact ⟨root ++ "/" ++ dataFolder, hdata root, by simp only [String.append_assoc]⟩
  obtain ⟨before, hb, hp⟩ := hpath
  rw [hp, components_concat _ _ (not_slash_fileName h) (fileName_ne (by decide))
    (fileName_ne (by decide)), components_concat before, hb]
  · simp
  all_goals cases kind <;> decide

theorem getLast_components_pathFor (root : String) (kind : PayloadKind) {name : String}
    (h : '/' ∉ name.toList) :
    (components (pathFor root kind name)).getLast? = some (fileName name) := by
  rw [components_pathFor root kind h]
  simp

/-! ### Operations on a disk -/

/-- Whether two trees hold the same files, but for those of a name. -/
def SameBut (last : String) (t u : Tree) : Prop :=
  ∀ p : Place, p.getLast? ≠ some last → u.fileAt p = t.fileAt p

theorem SameBut.rfl {last : String} {t : Tree} : SameBut last t t := fun _ _ => Eq.refl _

theorem SameBut.trans {last : String} {t u v : Tree} (h : SameBut last t u) (h' : SameBut last u v) :
    SameBut last t v :=
  fun p hp => (h' p hp).trans (h p hp)

namespace Disk

variable {path last : String}

theorem turn_tree (d : Disk) : d.turn.2.tree = d.tree := by
  unfold turn
  split <;> rfl

theorem holds_tree (d : Disk) (path : String) : (d.holds path).2.tree = d.tree := by
  have ht := d.turn_tree
  unfold holds
  split
  · rename_i d' hd
    rwa [hd] at ht
  · rename_i d' hd
    rw [hd] at ht
    split <;> exact ht

theorem makeParents_fileAt (d : Disk) (path : String) (p : Place) :
    (d.makeParents path).1.tree.fileAt p = d.tree.fileAt p := by
  have ht := d.turn_tree
  unfold makeParents
  split
  · rename_i f d' hd
    rw [hd] at ht
    rw [← ht]
  · rename_i d' hd
    rw [hd] at ht
    dsimp only at ht ⊢
    split
    · rw [ht]
    · rw [← ht]
      exact Tree.makeDirectories_fileAt _ _ p

theorem eq_of_namesOf {names : List String} (h : Tree.namesOf path = .ok names) :
    names = components path := by
  unfold Tree.namesOf at h
  split at h
  · cases h
  · cases h
    rfl

theorem write_sameBut (d : Disk) (content : Bytes) (hp : (components path).getLast? = some last)
    (hl : last ≠ "..") : SameBut last d.tree (d.write path content).1.tree := by
  have ht := d.turn_tree
  unfold write
  split
  · rename_i error d' hd
    rw [hd] at ht
    exact ht ▸ .rfl
  · rename_i fault d' _ hd
    rw [hd] at ht
    dsimp only at ht ⊢
    rw [← ht]
    split
    · exact .rfl
    · rename_i q t hq
      obtain ⟨names, hn, hq⟩ := ok_of_bind hq
      obtain ⟨hloc, rfl⟩ := Tree.eq_of_openFile hq
      rw [eq_of_namesOf hn] at hloc
      have hlast := Tree.getLast_of_locate hloc hp hl
      have hput : ∀ content : Bytes, SameBut last d'.tree
          ((d'.tree.put q (.file [])).put q (.file content)) := by
        intro content p hne
        have hpq : p ≠ q := by
          rintro rfl
          exact hne hlast
        rw [Tree.fileAt_put_of_ne _ hpq, Tree.fileAt_put_of_ne _ hpq]
      split
      · exact hput _
      · exact hput _

theorem remove_sameBut (d : Disk) (hp : (components path).getLast? = some last)
    (hl : last ≠ "..") : SameBut last d.tree (d.remove path).1.tree := by
  have ht := d.turn_tree
  unfold remove
  split
  · rename_i f d' hd
    rw [hd] at ht
    exact ht ▸ .rfl
  · rename_i d' hd
    rw [hd] at ht
    dsimp only at ht ⊢
    rw [← ht]
    split
    · exact .rfl
    · rename_i t ht'
      obtain ⟨names, hn, hq⟩ := ok_of_bind ht'
      obtain ⟨q, hloc, rfl⟩ := Tree.eq_of_remove hq
      rw [eq_of_namesOf hn] at hloc
      have hlast := Tree.getLast_of_locate hloc hp hl
      intro p hne
      refine Tree.fileAt_erase_of_ne ?_
      rintro rfl
      exact hne hlast

end Disk

/-- Files that are released one after another are of the same name. -/
theorem release_sameBut {last : String} (hl : last ≠ "..") (files : List StagedFile)
    (hf : ∀ f ∈ files, (components f.path).getLast? = some last) (d : Disk) :
    SameBut last d.tree (release d files).1.tree := by
  induction files generalizing d with
  | nil => exact .rfl
  | cons f rest ih =>
    have h1 := d.remove_sameBut (hf f List.mem_cons_self) hl
    have h2 := ih (fun g hg => hf g (List.mem_cons_of_mem _ hg)) (d.remove f.path).1
    unfold release
    split
    · rename_i d' e hd
      rw [hd] at h1 h2
      exact h1.trans h2
    · rename_i d' hd
      rw [hd] at h1 h2
      exact h1.trans h2

end RunDispatch.Staging
