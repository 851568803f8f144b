/-
# Shapes are read back from what is written

A reader of a shape gives back what was written of a value of the shape: a string between its quotes, a whole
number of 64 bits with a sign, `null` where nothing may stand. A record is read back from the object of its
members, in whatever order they are written, if each field gives back its own; members that may be missing
leave the draft as it is.

Key definitions: `Reader.Regains`, `Record.Fills`.
Key theorems: `Reader.regains_string`, `Reader.regains_int64`, `Reader.regains_optional`,
`Record.Fills.regains`, `Reader.Regains.parse_eq`.
-/
import RunDispatch.Proofs.Json.RoundTrip

namespace RunDispatch.Json

variable {α β δ : Type}

/-- Whether a reader gives back a value from a text, whatever follows that belongs to no number. -/
def Reader.Regains (reader : Reader α) (depth : Nat) (text : List Char) (a : α) : Prop :=
  ∀ r, NumberEnds r → reader depth (text ++ r) = .ok (a, r)

namespace Reader

theorem regains_string (depth : Nat) (s : String) : string.Regains depth (quoted s.toList) s := by
  intro r _
  have htext : quoted s.toList ++ r = '"' :: (s.toList.flatMap escaped ++ '"' :: r) := by simp [quoted]
  rw [htext, string, skipBlanks_cons (by decide)]
  exact readString_quoted s r

theorem readNumber_writeInt {n : Int} (hlow : -(signedLimit : Int) ≤ n) (hhigh : n < signedLimit)
    {r : List Char} (hr : NumberEnds r) : readNumber (writeInt n ++ r) = .ok (.whole n, r) := by
  have hlimit : signedLimit < wordLimit := by decide
  have hlex := Literal.lex?_written (wholeLiteral_wellFormed n) hr
  rw [wholeLiteral_written] at hlex
  exact readNumber_of_lex? hlex (number_wholeLiteral hlow (by omega))

theorem regains_int64 (depth : Nat) {n : Int} (hlow : -(signedLimit : Int) ≤ n) (hhigh : n < signedLimit) :
    int64.Regains depth (writeInt n) n := by
  intro r hr
  obtain ⟨c, t, hc, hopen⟩ := writeInt_cons n
  have hread := readNumber_writeInt hlow hhigh hr
  have hblank : isJsonBlank c = false := by
    rcases hopen with rfl | hd
    · decide
    · exact (opens_digit hd).blank
  rw [hc, List.cons_append] at hread ⊢
  rw [int64, skipBlanks_cons hblank]
  simp only [if_pos hopen, hread, bind, Except.bind, if_pos hhigh]
  rfl

theorem regains_null (reader : Reader α) (depth : Nat) :
    (optional reader).Regains depth Value.null.write none :=
  fun _ _ => rfl

/-- What may be missing is read back as what it is, unless it could be `null`. -/
theorem regains_optional {reader : Reader α} {depth : Nat} {text : List Char} {a : α}
    (h : reader.Regains depth text a) {c : Char} {t : List Char} (hc : text = c :: t)
    (hblank : isJsonBlank c = false) (hn : c ≠ 'n') : (optional reader).Regains depth text (some a) := by
  intro r hr
  have hread := h r hr
  rw [hc, List.cons_append] at hread ⊢
  rw [optional, skipBlanks_cons hblank]
  split
  · rename_i heq
    exact absurd (List.cons.inj heq).1 hn
  · rw [hread]
    rfl

theorem regains_field {reader : Reader α} {depth : Nat} {text : List Char} {a : α}
    (h : reader.Regains depth text a) (name : String) (put : α → δ → δ) (mayLack : Bool) :
    (Field.of name reader put mayLack).reader.Regains depth text (put a) := by
  intro r hr
  rw [Field.of]
  simp only [h r hr]
  rfl

theorem Regains.parse_eq {reader : Reader α} {text : List Char} {a : α}
    (h : reader.Regains depthLimit text a) : parse reader text = .ok a := by
  have hread := h [] numberEnds_nil
  rw [List.append_nil] at hread
  rw [parse, hread]
  rfl

end Reader

namespace Record

/-- What written members make of a draft: each is one of the record's and not there before, and its field
gives back what is put into the draft. -/
inductive Fills (record : Record δ α) (depth : Nat) : List String → δ → List (List Char) → δ → Prop where
  | nil (seen : List String) (d : δ) : Fills record depth seen d [] d
  | member {seen : List String} {d e : δ} {name : String} {field : Field δ} {text : List Char}
    {texts : List (List Char)} {put : δ → δ} (hfield : record.fields.find? (·.name = name) = some field)
    (hnew : name ∉ seen) (hput : field.reader.Regains depth text put)
    (rest : Fills record depth (name :: seen) (put d) texts e) :
    Fills record depth seen d ((quoted name.toList ++ ':' :: text) :: texts) e

variable {record : Record δ α} {depth : Nat} {seen : List String} {d e : δ} {texts : List (List Char)}

theorem Fills.put {β : Type} {name : String} {reader : Reader β} (put : β → δ → δ) {mayLack : Bool}
    (hfield : record.fields.find? (·.name = name) = some (Field.of name reader put mayLack))
    (hnew : name ∉ seen) {text : List Char} {b : β} (hread : reader.Regains depth text b)
    (rest : Fills record depth (name :: seen) (put b d) texts e) :
    Fills record depth seen d ((quoted name.toList ++ ':' :: text) :: texts) e :=
  .member hfield hnew (Reader.regains_field hread name put mayLack) rest

/-- The members that are written are read one after another. -/
theorem Fills.membersWith_eq (h : Fills record depth seen d texts e) {a : α} (ha : record.finish e = .ok a)
    {fuel : Nat} (hf : texts.length < fuel) (first : Bool) (r : List Char) :
    record.membersWith fuel depth first seen d (separated first texts ++ '\x7d' :: r) = .ok (a, r) := by
  induction h generalizing fuel first with
  | nil seen d =>
    obtain ⟨fuel, rfl⟩ := Nat.exists_eq_add_one_of_ne_zero (Nat.ne_of_gt hf)
    rw [membersWith, separated]
    simp only [List.nil_append, show beforeMember first ('\x7d' :: r) = .ok (none, r) from rfl, bind,
      Except.bind, ha]
    rfl
  | @member seen d e name field text texts put hfield hnew hput _ ih =>
    obtain ⟨fuel, rfl⟩ := Nat.exists_eq_add_one_of_ne_zero (Nat.ne_of_gt (Nat.zero_lt_of_lt hf))
    have htext : quoted name.toList ++ ':' :: text ++ (separated false texts ++ '\x7d' :: r) =
        '"' :: (name.toList.flatMap escaped ++
          '"' :: ':' :: (text ++ (separated false texts ++ '\x7d' :: r))) := by
      simp [quoted]
    have hname := readString_quoted name (':' :: (text ++ (separated false texts ++ '\x7d' :: r)))
    have hcolon : readColon (':' :: (text ++ (separated false texts ++ '\x7d' :: r))) =
        .ok (text ++ (separated false texts ++ '\x7d' :: r)) := rfl
    have hread := hput _ (numberEnds_more texts (.inr rfl) r)
    have hrest := ih ha (Nat.lt_of_succ_lt_succ hf) false
    rw [membersWith, separated, List.append_assoc, List.append_assoc, htext, beforeMember_lead]
    simp only [bind, Except.bind, hname, hfield, if_neg hnew, hcolon, hread, inPart, Except.mapError, hrest]

theorem Fills.length_le (h : Fills record depth seen d texts e) (first : Bool) :
    texts.length ≤ (separated first texts).length := by
  induction h generalizing first with
  | nil => exact Nat.le_refl 0
  | member _ _ _ _ ih =>
    have hrest := ih false
    simp only [separated, quoted, List.length_append, List.length_cons]
    omega

/-- **A record is read back from the object of its members.** -/
theorem Fills.regains {inner : Nat} (h : Fills record (inner + 1) [] record.empty texts e) {a : α}
    (ha : record.finish e = .ok a) :
    record.reader.Regains (inner + 2) ('\x7b' :: (commaSeparated texts ++ ['\x7d'])) a := by
  intro r _
  have hlength := h.length_le true
  have htext : '\x7b' :: (commaSeparated texts ++ ['\x7d']) ++ r =
      '\x7b' :: (separated true texts ++ '\x7d' :: r) := by simp [commaSeparated_eq]
  rw [htext, reader, skipBlanks_cons (by decide)]
  exact h.membersWith_eq ha (by rw [List.length_append]; omega) true r

end Record

end RunDispatch.Json
