/-
# The grammar of image references

Which image a text denotes, without indices. A reference is cut at a colon behind which stands
neither a slash nor another colon; there is at most one such colon. A reference without it is the
repository, and its tag is `latest`. The colon of a registry's port has a slash behind it, so it
cuts nothing, and odd repositories such as `:/x`, `a/` and `a:b` are repositories all the same.

The first fault of a text is a relation, too: each fault has the earlier ones excluded. So every
text either denotes one image or has one first fault.

Key definitions: `lastPart`, `Cut`, `Acceptable`, `Denotes`, `FirstFault`, `Sound`.
Key theorems: `splitTag?_eq_some_iff`, `splitTag?_eq_none_iff`, `parse_outcome`,
`Sound.parse_display`, `parse_reads`.
-/
import Mathlib.Data.List.DropRight
import RunDispatch.Image

namespace RunDispatch

/-! ### Trimming -/

theorem Text.trimLeft_of_free {cs : List Char} (h : ∀ c ∈ cs, Text.isBlank c = false) :
    Text.trimLeft cs = cs := by
  cases cs with
  | nil => rfl
  | cons c r => simp [Text.trimLeft, h c List.mem_cons_self]

theorem Text.trimChars_of_free {cs : List Char} (h : ∀ c ∈ cs, Text.isBlank c = false) :
    Text.trimChars cs = cs := by
  have back : ∀ c ∈ cs.reverse, Text.isBlank c = false := by simpa using h
  rw [Text.trimChars, Text.trimLeft_of_free h, Text.trimLeft_of_free back, List.reverse_reverse]

namespace Image

/-! ### The last colon of the last part -/

/-- What stands behind the last slash, which is the whole text where there is none. -/
def lastPart (t : List Char) : List Char :=
  t.rtakeWhile (· != '/')

/-- A text cut at the last colon of its last part. -/
structure Cut (t repository tag : List Char) : Prop where
  whole : t = repository ++ ':' :: tag
  no_slash : '/' ∉ tag
  no_colon : ':' ∉ tag

/-- The search for a tag finds the cut. -/
theorem splitTag?_eq_some_iff {t repository tag : List Char} :
    splitTag? t = some (repository, tag) ↔ Cut t repository tag := by
  constructor
  · intro h
    have apart := List.takeWhile_append_dropWhile (p := fun c => c != ':' && c != '/') (l := t.reverse)
    simp only [splitTag?] at h
    split at h
    next rest hdrop =>
      obtain ⟨rfl, rfl⟩ : rest.reverse = repository ∧ _ = tag := by simpa using h
      rw [hdrop] at apart
      have behind : ∀ c ∈ t.reverse.takeWhile (fun c => c != ':' && c != '/'),
          (c != ':' && c != '/') = true := by
        intro c hc
        exact List.mem_takeWhile_imp (p := fun c => c != ':' && c != '/') hc
      refine ⟨?_, fun hc => ?_, fun hc => ?_⟩
      · have := congrArg List.reverse apart
        simpa using this.symm
      · simpa using behind _ (List.mem_reverse.1 hc)
      · simpa using behind _ (List.mem_reverse.1 hc)
    next => cases h
  · rintro ⟨rfl, no_slash, no_colon⟩
    have inTag : ∀ c ∈ tag.reverse, (c != ':' && c != '/') = true := by
      intro c hc
      have hc := List.mem_reverse.1 hc
      simp only [Bool.and_eq_true, bne_iff_ne]
      exact ⟨fun e => no_colon (e ▸ hc), fun e => no_slash (e ▸ hc)⟩
    simp [splitTag?, List.dropWhile_append_of_pos inTag, List.takeWhile_append_of_pos inTag]

/-- A text can be cut exactly where its last part has a colon. -/
theorem exists_cut_iff {t : List Char} :
    (∃ repository tag, Cut t repository tag) ↔ ':' ∈ lastPart t := by
  constructor
  · rintro ⟨repository, tag, rfl, no_slash, -⟩
    have inPart : ∀ c ∈ tag.reverse ++ [':'], (c != '/') = true := by
      intro c hc
      simp only [List.mem_append, List.mem_reverse, List.mem_singleton] at hc
      rcases hc with hc | rfl
      · exact bne_iff_ne.2 fun e => no_slash (e ▸ hc)
      · rfl
    have back : (repository ++ ':' :: tag).reverse = (tag.reverse ++ [':']) ++ repository.reverse := by
      simp
    rw [lastPart, List.rtakeWhile, back, List.takeWhile_append_of_pos inPart]
    simp
  · intro h
    -- The last colon of the part is the first one of the part read backwards.
    obtain ⟨after, before, hpart, hafter⟩ :=
      List.eq_append_cons_of_mem (List.mem_reverse.2 h)
    have part : lastPart t = before.reverse ++ ':' :: after.reverse := by
      simpa using congrArg List.reverse hpart
    refine ⟨t.rdropWhile (· != '/') ++ before.reverse, after.reverse, ?_, ?_, ?_⟩
    · rw [List.append_assoc, ← part, lastPart, List.rdropWhile_append_rtakeWhile]
    · intro hslash
      have inPart : '/' ∈ lastPart t := by rw [part]; simp_all
      simpa using List.mem_rtakeWhile_imp inPart
    · simpa using hafter

theorem splitTag?_eq_none_iff {t : List Char} : splitTag? t = none ↔ ':' ∉ lastPart t := by
  rw [← exists_cut_iff]
  constructor
  · rintro h ⟨repository, tag, hcut⟩
    simp [splitTag?_eq_some_iff.2 hcut] at h
  · intro h
    cases hs : splitTag? t with
    | none => rfl
    | some p => exact absurd ⟨p.1, p.2, splitTag?_eq_some_iff.1 hs⟩ h

theorem Cut.unique {t r r' g g' : List Char} (h : Cut t r g) (h' : Cut t r' g') :
    r = r' ∧ g = g' := by
  have := (splitTag?_eq_some_iff.2 h).symm.trans (splitTag?_eq_some_iff.2 h')
  simpa using this

/-! ### What a reference denotes -/

/-- A text that may be a reference by its characters alone. -/
structure Acceptable (t : List Char) : Prop where
  nonempty : t ≠ []
  no_blank : ∀ c ∈ t, Text.isBlank c = false
  no_digest : '@' ∉ t

/-- The image that a text without blanks at its ends denotes. -/
inductive Denotes (t : String) : Image → Prop
  | untagged (h : Acceptable t.toList) (none : ':' ∉ lastPart t.toList) : Denotes t ⟨t, "latest"⟩
  | tagged {repository tag : List Char} (h : Acceptable t.toList)
      (cut : Cut t.toList repository tag) (hr : repository ≠ []) (hg : tag ≠ []) :
      Denotes t ⟨String.ofList repository, String.ofList tag⟩

/-- The first thing wrong with a text without blanks at its ends. -/
inductive FirstFault (t : String) : ImageFault → Prop
  | empty (h : t.toList = []) : FirstFault t .empty
  | blank {c : Char} (h : c ∈ t.toList) (hb : Text.isBlank c = true) : FirstFault t (.blank t)
  | digest (no_blank : ∀ c ∈ t.toList, Text.isBlank c = false) (h : '@' ∈ t.toList) :
      FirstFault t (.digest t)
  | emptyPart {repository tag : List Char} (h : Acceptable t.toList)
      (cut : Cut t.toList repository tag) (hp : repository = [] ∨ tag = []) :
      FirstFault t (.emptyPart t)

/-- What the reading of a trimmed text comes to, right or wrong. -/
inductive Outcome (t : String) : Except ImageFault Image → Prop
  | image {i : Image} (h : Denotes t i) : Outcome t (.ok i)
  | fault {f : ImageFault} (h : FirstFault t f) : Outcome t (.error f)

/-- The reading follows the grammar. -/
theorem parse_outcome (r : String) : Outcome (Text.trim r) (parse r) := by
  simp only [parse]
  generalize Text.trim r = t
  split
  · next h => exact .fault (.empty (by simpa using h))
  · next hne =>
    have hne : t.toList ≠ [] := by simpa using hne
    split
    · next h =>
      obtain ⟨c, hc, hb⟩ := List.any_eq_true.1 h
      exact .fault (.blank hc hb)
    · next h =>
      have no_blank : ∀ c ∈ t.toList, Text.isBlank c = false := by simpa using h
      split
      · next h => exact .fault (.digest no_blank (by simpa using h))
      · next h =>
        have ok : Acceptable t.toList := ⟨hne, no_blank, by simpa using h⟩
        split
        · next hs => exact .image (.untagged ok (splitTag?_eq_none_iff.1 hs))
        · next repository tag hs =>
          have cut := splitTag?_eq_some_iff.1 hs
          split
          · next h => exact .fault (.emptyPart ok cut (by simpa using h))
          · next h =>
            simp only [List.isEmpty_iff, not_or] at h
            exact .image (.tagged ok cut h.1 h.2)

/-! ### At most one outcome -/

theorem Denotes.acceptable {t : String} {i : Image} (h : Denotes t i) : Acceptable t.toList := by
  cases h <;> assumption

theorem Denotes.unique {t : String} {i j : Image} (hi : Denotes t i) (hj : Denotes t j) : i = j := by
  cases hi with
  | untagged _ no =>
    cases hj with
    | untagged => rfl
    | tagged _ cut => exact absurd (exists_cut_iff.1 ⟨_, _, cut⟩) no
  | tagged _ cut =>
    cases hj with
    | untagged _ no => exact absurd (exists_cut_iff.1 ⟨_, _, cut⟩) no
    | tagged _ cut' =>
      obtain ⟨rfl, rfl⟩ := cut.unique cut'
      rfl

theorem Denotes.faultless {t : String} {i : Image} (h : Denotes t i) {f : ImageFault}
    (hf : FirstFault t f) : False := by
  cases hf with
  | empty he => exact h.acceptable.nonempty he
  | blank hc hb => simp [h.acceptable.no_blank _ hc] at hb
  | digest _ hd => exact h.acceptable.no_digest hd
  | emptyPart _ cut hp =>
    cases h with
    | untagged _ no => exact no (exists_cut_iff.1 ⟨_, _, cut⟩)
    | tagged _ cut' hr hg =>
      obtain ⟨rfl, rfl⟩ := cut.unique cut'
      exact hp.elim hr hg

theorem FirstFault.unique {t : String} {f g : ImageFault} (hf : FirstFault t f)
    (hg : FirstFault t g) : f = g := by
  cases hf <;> cases hg <;> first | rfl | grind [Acceptable]

theorem parse_eq_ok_iff {r : String} {i : Image} : parse r = .ok i ↔ Denotes (Text.trim r) i := by
  have outcome := parse_outcome r
  constructor
  · intro h
    rw [h] at outcome
    cases outcome
    assumption
  · intro h
    generalize parse r = result at outcome
    cases outcome with
    | image h' => rw [h'.unique h]
    | fault hf => exact (h.faultless hf).elim

theorem parse_eq_error_iff {r : String} {f : ImageFault} :
    parse r = .error f ↔ FirstFault (Text.trim r) f := by
  have outcome := parse_outcome r
  constructor
  · intro h
    rw [h] at outcome
    cases outcome
    assumption
  · intro h
    generalize parse r = result at outcome
    cases outcome with
    | image h' => exact (h'.faultless h).elim
    | fault hf => rw [hf.unique h]

/-! ### The display of an image -/

/-- An image that a reference can denote. -/
structure Sound (i : Image) : Prop where
  repository : Acceptable i.repository.toList
  tag_nonempty : i.tag.toList ≠ []
  tag_plain : ∀ c ∈ i.tag.toList, c ≠ '/' ∧ c ≠ ':' ∧ c ≠ '@' ∧ Text.isBlank c = false

theorem Acceptable.part {t part : List Char} (h : Acceptable t) (hp : part ⊆ t) (hne : part ≠ []) :
    Acceptable part :=
  ⟨hne, fun c hc => h.no_blank c (hp hc), fun hc => h.no_digest (hp hc)⟩

theorem Denotes.sound {t : String} {i : Image} (h : Denotes t i) : Sound i := by
  cases h with
  | untagged ok =>
    have plain : "latest".toList.all
        (fun c => c ≠ '/' ∧ c ≠ ':' ∧ c ≠ '@' ∧ Text.isBlank c = false) = true := by decide
    exact ⟨ok, by simp, fun c hc => of_decide_eq_true (List.all_eq_true.mp plain c hc)⟩
  | @tagged repository tag ok cut hr hg =>
    have inRepository : repository ⊆ t.toList := by rw [cut.whole]; simp
    have inTag : tag ⊆ t.toList := by rw [cut.whole]; simp
    have okTag := ok.part inTag hg
    refine ⟨by simpa using ok.part inRepository hr, by simpa using hg, fun c hc => ?_⟩
    have hc : c ∈ tag := by simpa using hc
    exact ⟨fun e => cut.no_slash (e ▸ hc), fun e => cut.no_colon (e ▸ hc),
      fun e => okTag.no_digest (e ▸ hc), okTag.no_blank c hc⟩

theorem Sound.display_acceptable {i : Image} (h : Sound i) : Acceptable i.display.toList := by
  have whole : i.display.toList = i.repository.toList ++ ':' :: i.tag.toList := by
    simp [display]
  rw [whole]
  refine ⟨by simp, fun c hc => ?_, fun hc => ?_⟩
  · rcases List.mem_append.1 hc with hc | hc
    · exact h.repository.no_blank c hc
    · rcases List.mem_cons.1 hc with rfl | hc
      · decide
      · exact (h.tag_plain c hc).2.2.2
  · rcases List.mem_append.1 hc with hc | hc
    · exact h.repository.no_digest hc
    · rcases List.mem_cons.1 hc with e | hc
      · exact absurd e (by decide)
      · exact (h.tag_plain _ hc).2.2.1 rfl

/-- The display of an image is a reference of it, whatever slashes and colons its repository has. -/
theorem Sound.parse_display {i : Image} (h : Sound i) : parse i.display = .ok i := by
  have free : Text.trim i.display = i.display := by
    rw [Text.trim, Text.trimChars_of_free h.display_acceptable.no_blank, String.ofList_toList]
  have cut : Cut i.display.toList i.repository.toList i.tag.toList :=
    ⟨by simp [display], fun hc => (h.tag_plain _ hc).1 rfl, fun hc => (h.tag_plain _ hc).2.1 rfl⟩
  have denotes := Denotes.tagged h.display_acceptable cut h.repository.nonempty h.tag_nonempty
  rw [parse_eq_ok_iff, free]
  simpa using denotes

/-- The reading of references. A text is accepted exactly where its trimmed form denotes an image,
and then this is its image; else its error is the first fault that applies. Every image that is
read has a plain tag, and its display is read as the same image again. -/
theorem parse_reads (r : String) :
    (∀ i, parse r = .ok i ↔ Denotes (Text.trim r) i) ∧
      (∀ f, parse r = .error f ↔ FirstFault (Text.trim r) f) ∧
      ∀ i, parse r = .ok i →
        i.tag.toList ≠ [] ∧
        (∀ c ∈ i.tag.toList, c ≠ '/' ∧ c ≠ ':' ∧ c ≠ '@' ∧ Text.isBlank c = false) ∧
        parse i.display = .ok i := by
  refine ⟨fun _ => parse_eq_ok_iff, fun _ => parse_eq_error_iff, fun i h => ?_⟩
  have sound := (parse_eq_ok_iff.1 h).sound
  exact ⟨sound.tag_nonempty, sound.tag_plain, sound.parse_display⟩

/-- A colon in front of a slash, and a repository with a colon of its own. -/
example : parse " :/x" = .ok ⟨":/x", "latest"⟩ ∧ parse "a:b:c" = .ok ⟨"a:b", "c"⟩ := by decide

end Image

end RunDispatch
