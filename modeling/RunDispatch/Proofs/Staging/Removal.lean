/-
# What is left at a path

A removal that meets no fault leaves no file at its path, and puts nothing anywhere. It can make nothing
reachable that was not, since only a directory leads on; and what lies at another place stays. The payloads
of a run lie at different places, in the folders of their kinds.

Key definitions: `Tree.entryAt`, `Shrinks`.
Key theorems: `Tree.entryAt_erase`, `kind_eq_of_place`, `Disk.remove_cases`, `release_shrinks`,
`entryAt_release`, `entryAt_release_of_kind`.
-/
import RunDispatch.Proofs.Staging.Frame

namespace RunDispatch.Staging

namespace Tree

/-- What lies at the end of a path, if anything does. -/
def entryAt (t : Tree) (path : String) : Option Entry := (namesOf path >>= t.stat).toOption

/-! ### Ways through a tree -/

theorem walk_parent (t : Tree) (start : Place) (rest : List String) :
    t.walk start (".." :: rest) = t.walk start.dropLast rest := if_pos rfl

theorem walk_cons_eq_ok {t : Tree} {start p : Place} {c : String} {rest : List String}
    (hc : c ≠ "..") : t.walk start (c :: rest) = .ok p ↔
      (Text.utf8 c).length ≤ maxNameLength ∧ t.find? (start ++ [c]) = some .directory ∧
        t.walk (start ++ [c]) rest = .ok p := by
  rw [walk, if_neg hc]
  by_cases hl : maxNameLength < (Text.utf8 c).length
  · simp [hl, Nat.not_le.mpr hl]
  · rw [if_neg hl]
    have hl := Nat.not_lt.mp hl
    cases t.find? (start ++ [c]) with
    | none => simp
    | some e => cases e <;> simp [hl]

/-- The last name on a way is the last of the place to which it leads, unless it leads back. -/
theorem walk_concat {t : Tree} {start p : Place} {names : List String} {c : String} (hc : c ≠ "..")
    (h : t.walk start (names ++ [c]) = .ok p) :
    ∃ dir, t.walk start names = .ok dir ∧ p = dir ++ [c] := by
  induction names generalizing start with
  | nil =>
    obtain ⟨-, -, h⟩ := (walk_cons_eq_ok hc).mp h
    cases h
    exact ⟨start, rfl, rfl⟩
  | cons a rest ih =>
    by_cases ha : a = ".."
    · subst ha
      rw [List.cons_append, walk_parent] at h
      rw [walk_parent]
      exact ih h
    · obtain ⟨hl, hd, h⟩ := (walk_cons_eq_ok ha).mp h
      obtain ⟨dir, hdir, hp⟩ := ih h
      exact ⟨dir, (walk_cons_eq_ok ha).mpr ⟨hl, hd, hdir⟩, hp⟩

section SameDirectories

variable {t u : Tree} (h : ∀ p, u.find? p = some .directory ↔ t.find? p = some .directory)
include h

theorem walk_congr (names : List String) (start p : Place) :
    u.walk start names = .ok p ↔ t.walk start names = .ok p := by
  induction names generalizing start with
  | nil => rfl
  | cons c rest ih =>
    by_cases hc : c = ".."
    · rw [hc, walk_parent, walk_parent]
      exact ih _
    · rw [walk_cons_eq_ok hc, walk_cons_eq_ok hc, h, ih]

theorem locate_congr (names : List String) (p : Place) :
    u.locate names = .ok p ↔ t.locate names = .ok p := by
  unfold locate
  split
  · rfl
  · rename_i last _
    have hw := walk_congr h names.dropLast []
    constructor
    · intro hp
      obtain ⟨dir, hdir, hp⟩ := ok_of_bind hp
      rw [(hw dir).mp hdir]
      exact hp
    · intro hp
      obtain ⟨dir, hdir, hp⟩ := ok_of_bind hp
      rw [(hw dir).mpr hdir]
      exact hp

end SameDirectories

theorem stat_eq_ok {t : Tree} {names : List String} {e : Entry} :
    t.stat names = .ok e ↔ ∃ p, t.locate names = .ok p ∧ t.find? p = some e := by
  unfold stat
  constructor
  · intro h
    obtain ⟨p, hp, h⟩ := ok_of_bind h
    split at h
    · rename_i e' he
      cases h
      exact ⟨p, hp, he⟩
    · cases h
  · rintro ⟨p, hp, he⟩
    simp only [hp, bind, Except.bind, he]
    rfl

/-- Something lies at the end of a path if it lies at the place to which the path leads. -/
theorem entryAt_eq_some {t : Tree} {path : String} {e : Entry} :
    t.entryAt path = some e ↔
      ∃ names p, namesOf path = .ok names ∧ t.locate names = .ok p ∧ t.find? p = some e := by
  unfold entryAt
  constructor
  · intro h
    cases hs : namesOf path >>= t.stat with
    | error _ =>
      rw [hs] at h
      cases h
    | ok e' =>
      rw [hs] at h
      cases h
      obtain ⟨names, hn, hs⟩ := ok_of_bind hs
      obtain ⟨p, hp⟩ := stat_eq_ok.mp hs
      exact ⟨names, p, hn, hp⟩
  · rintro ⟨names, p, hn, hp⟩
    simp only [hn, bind, Except.bind, stat_eq_ok.mpr ⟨p, hp⟩]
    rfl

/-! ### A file that is erased -/

section Erase

variable {t : Tree} {p : Place} {c : Bytes}

theorem find?_erase_directory (hf : t.find? p = some (.file c)) (q : Place) :
    (t.erase p).find? q = some .directory ↔ t.find? q = some .directory := by
  rw [find?_erase]
  split
  · rename_i hq
    rw [hq.1, hf]
    simp
  · rfl

/-- When a file is erased, nothing lies at the end of the paths that lead to it, and what lies at the end
of the others stays. -/
theorem entryAt_erase (hf : t.find? p = some (.file c)) {path : String} {e : Entry} :
    (t.erase p).entryAt path = some e ↔ t.entryAt path = some e ∧
      ∀ names, namesOf path = .ok names → t.locate names ≠ .ok p := by
  have hloc := locate_congr (find?_erase_directory hf)
  have hp : p ≠ [] := by
    rintro rfl
    cases hf
  rw [entryAt_eq_some, entryAt_eq_some]
  constructor
  · rintro ⟨names, q, hn, hq, he⟩
    rw [hloc] at hq
    rw [find?_erase] at he
    split at he
    · cases he
    · rename_i hqp
      refine ⟨⟨names, q, hn, hq, he⟩, fun names' hn' hq' => hqp ?_⟩
      rw [hn] at hn'
      cases hn'
      rw [hq] at hq'
      cases hq'
      exact ⟨rfl, hp⟩
  · rintro ⟨⟨names, q, hn, hq, he⟩, hne⟩
    refine ⟨names, q, hn, (hloc _ _).mpr hq, ?_⟩
    rw [find?_erase, if_neg, he]
    rintro ⟨rfl, -⟩
    exact hne names hn hq

end Erase

end Tree

/-! ### The places of payloads -/

/-- The place of a payload, if the path leads anywhere, is in the folder of its kind. -/
theorem place_of_payload {t : Tree} {root : String} {kind : PayloadKind} {name : String} {p : Place}
    (h : '/' ∉ name.toList) (hp : t.locate (components (pathFor root kind name)) = .ok p) :
    ∃ dir, p = dir ++ [kind.folder, fileName name] := by
  have hc : components (pathFor root kind name) =
      components root ++ [dataFolder] ++ [kind.folder] ++ [fileName name] := by
    rw [components_pathFor root kind h]
    simp
  rw [hc, Tree.locate, List.getLast?_concat, List.dropLast_concat] at hp
  obtain ⟨dir, hdir, hp⟩ := ok_of_bind hp
  rw [if_neg (fileName_ne (by decide))] at hp
  split at hp
  · cases hp
  · cases hp
    obtain ⟨above', -, rfl⟩ := Tree.walk_concat (by cases kind <;> decide) hdir
    exact ⟨above', by simp⟩

theorem PayloadKind.folder_injective {a b : PayloadKind} (h : a.folder = b.folder) : a = b := by
  cases a <;> cases b <;> first | rfl | exact absurd h (by decide)

/-- **Payloads of different kinds lie at different places.** -/
theorem kind_eq_of_place {t : Tree} {root : String} {a b : PayloadKind} {name : String} {p : Place}
    (h : '/' ∉ name.toList) (ha : t.locate (components (pathFor root a name)) = .ok p)
    (hb : t.locate (components (pathFor root b name)) = .ok p) : a = b := by
  obtain ⟨dir, rfl⟩ := place_of_payload h ha
  obtain ⟨dir', he⟩ := place_of_payload h hb
  have hf := List.append_inj_right' he rfl
  exact PayloadKind.folder_injective (List.cons.inj hf).1

/-! ### Removals that meet no fault -/

namespace Disk

/-- **A removal that meets no fault** erases the file at its path, or there is none and nothing
changes. -/
theorem remove_cases {d : Disk} (hd : d.faults = []) (path : String) :
    ((d.remove path).1 = d ∧ ∀ c, d.tree.entryAt path ≠ some (.file c)) ∨
    ∃ p c, d.tree.locate (components path) = .ok p ∧ d.tree.find? p = some (.file c) ∧
      (∃ names, Tree.namesOf path = .ok names) ∧
      (d.remove path).1 = { d with tree := d.tree.erase p } := by
  have ht : d.turn = (none, d) := by simp [turn, hd]
  unfold remove
  rw [ht]
  dsimp only
  cases hr : Tree.namesOf path >>= d.tree.remove with
  | ok u =>
    obtain ⟨names, hn, hr⟩ := ok_of_bind hr
    obtain ⟨p, hp, hr⟩ := ok_of_bind hr
    split at hr
    · cases hr
    · cases hr
    · rename_i c hc
      cases hr
      rw [eq_of_namesOf hn] at hp
      exact .inr ⟨p, c, hp, hc, ⟨names, hn⟩, rfl⟩
  | error e =>
    refine .inl ⟨rfl, fun c hc => ?_⟩
    obtain ⟨names, p, hn, hp, hc⟩ := Tree.entryAt_eq_some.mp hc
    simp only [hn, bind, Except.bind, Tree.remove, hp, hc] at hr
    cases hr

end Disk

/-- The disk meets no fault, and nothing lies at the paths of files where nothing lay before. -/
structure Shrinks (files : List StagedFile) (d d' : Disk) : Prop where
  faultless : d'.faults = []
  entries : ∀ f ∈ files, ∀ e, d'.tree.entryAt f.path = some e → d.tree.entryAt f.path = some e

section Removals

variable {files : List StagedFile} {d d' d'' : Disk}

theorem Shrinks.refl (hd : d.faults = []) : Shrinks files d d := ⟨hd, fun _ _ _ he => he⟩

theorem Shrinks.trans (h : Shrinks files d d') (h' : Shrinks files d' d'') : Shrinks files d d'' :=
  ⟨h'.faultless, fun f hf e he => h.entries f hf e (h'.entries f hf e he)⟩

theorem Shrinks.none (h : Shrinks files d d') {f : StagedFile} (hf : f ∈ files)
    (hn : d.tree.entryAt f.path = none) : d'.tree.entryAt f.path = none := by
  cases he : d'.tree.entryAt f.path with
  | none => rfl
  | some e =>
    rw [h.entries f hf e he] at hn
    cases hn

theorem remove_shrinks (hd : d.faults = []) (files : List StagedFile) (path : String) :
    Shrinks files d (d.remove path).1 := by
  rcases Disk.remove_cases hd path with ⟨hr, -⟩ | ⟨p, c, -, hc, -, hr⟩
  · rw [hr]
    exact .refl hd
  · rw [hr]
    exact ⟨hd, fun f _ e he => ((Tree.entryAt_erase hc).mp he).1⟩

/-- Nothing but a directory is left at a path after the removal. -/
theorem entryAt_remove (hd : d.faults = []) {path : String}
    (hp : d.tree.entryAt path ≠ some .directory) : (d.remove path).1.tree.entryAt path = none := by
  rcases Disk.remove_cases hd path with ⟨hr, hn⟩ | ⟨p, c, hp', hc, ⟨names, hnames⟩, hr⟩
  · rw [hr]
    cases he : d.tree.entryAt path with
    | none => rfl
    | some e =>
      cases e with
      | directory => exact absurd he hp
      | file c => exact absurd he (hn c)
  · rw [hr]
    cases he : (d.tree.erase p).entryAt path with
    | none => rfl
    | some e =>
      have hne := ((Tree.entryAt_erase hc).mp he).2 names hnames
      rw [Disk.eq_of_namesOf hnames] at hne
      exact absurd hp' hne

theorem entryAt_remove_pathFor (hd : d.faults = []) {root name : String} (hn : '/' ∉ name.toList)
    {a b : PayloadKind} (hab : a ≠ b) :
    (d.remove (pathFor root a name)).1.tree.entryAt (pathFor root b name) =
      d.tree.entryAt (pathFor root b name) := by
  rcases Disk.remove_cases hd (pathFor root a name) with ⟨hr, -⟩ | ⟨p, c, hp, hc, -, hr⟩
  · rw [hr]
  · rw [hr]
    refine Option.ext fun e => ?_
    rw [Tree.entryAt_erase hc]
    refine ⟨fun he => he.1, fun he => ⟨he, fun names hnames hp' => hab ?_⟩⟩
    rw [Disk.eq_of_namesOf hnames] at hp'
    exact kind_eq_of_place hn hp hp'

/-! ### Files that are released -/

theorem release_cons (d : Disk) (f : StagedFile) (rest : List StagedFile) :
    (release d (f :: rest)).1 = (release (d.remove f.path).1 rest).1 := by
  rw [release]
  split <;> rename_i h <;> rw [h]

theorem release_shrinks (hd : d.faults = []) (files removed : List StagedFile) :
    Shrinks files d (release d removed).1 := by
  induction removed generalizing d with
  | nil => exact .refl hd
  | cons f rest ih =>
    rw [release_cons]
    have hf := remove_shrinks hd files f.path
    exact hf.trans (ih hf.faultless)

/-- **Released files are gone**, unless they were directories. -/
theorem entryAt_release (hd : d.faults = []) {removed : List StagedFile} {f : StagedFile}
    (hf : f ∈ removed) (hp : d.tree.entryAt f.path ≠ some .directory) :
    (release d removed).1.tree.entryAt f.path = none := by
  induction removed generalizing d with
  | nil => cases hf
  | cons g rest ih =>
    have hg := remove_shrinks hd [f] g.path
    rw [release_cons]
    rcases List.mem_cons.mp hf with rfl | hf
    · exact (release_shrinks hg.faultless [f] rest).none (.head _) (entryAt_remove hd hp)
    · exact ih hg.faultless hf fun he => hp (hg.entries f (.head _) _ he)

/-- **A file of another kind than the released ones is left**, if all are the payloads of a name. -/
theorem entryAt_release_of_kind (hd : d.faults = []) {root name : String} (hn : '/' ∉ name.toList)
    {removed : List StagedFile} {f : StagedFile}
    (hr : ∀ g ∈ removed, g.path = pathFor root g.kind name ∧ g.kind ≠ f.kind)
    (hf : f.path = pathFor root f.kind name) :
    (release d removed).1.tree.entryAt f.path = d.tree.entryAt f.path := by
  induction removed generalizing d with
  | nil => rfl
  | cons g rest ih =>
    obtain ⟨hg, hk⟩ := hr g List.mem_cons_self
    rw [release_cons, ih (remove_shrinks hd [] g.path).faultless fun g' hg' =>
      hr g' (List.mem_cons_of_mem _ hg'), hg, hf]
    exact entryAt_remove_pathFor hd hn hk

end Removals

end RunDispatch.Staging
