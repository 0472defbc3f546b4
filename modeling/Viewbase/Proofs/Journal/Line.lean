import Mathlib.Data.List.Nodup
import Viewbase.Journal.Record
import Viewbase.Json.Reader
import Viewbase.Proofs.Text.Numerals

/-!
Lines of a journal, read as JSON.

A text in a line is read back as it was (`readString_quoted`), and so are members that follow each
other (`readMembers_fields`).  Main statement: the line of a record ends in its only control
character, is read as the object with just its event, its severity and its fields, and is the same
in whatever order the fields were given (`line_faithful`).
-/

namespace Viewbase

namespace Json

variable {c : Char}

/-! ## Escapes -/

theorem readText_escape {e : Char} (h : escape? e = some c) (he : e ≠ 'u') (rest : List Char) :
    readText none ('\\' :: e :: rest) =
      (readText none rest).map fun (text, rest) => (c :: text, rest) := by
  rw [readText]
  · rw [h]
    cases readText none rest <;> rfl
  · exact fun _ _ _ _ _ hu => absurd hu he

/-- A character below the surrogates is read from its code point. -/
theorem readText_codePoint (h : c.toNat < 0xD800) (rest : List Char) :
    readText none ('\\' :: 'u' :: Text.hexLow 4 c.toNat ++ rest) =
      (readText none rest).map fun (text, rest) => (c :: text, rest) := by
  have hunit : Text.hexNumber? (Text.hexLow 4 c.toNat) = some c.toNat :=
    Text.hexNumber?_hexLow (by omega)
  have hhigh : isHighSurrogate c.toNat = false := by
    simp [isHighSurrogate, h]
  have hlow : isLowSurrogate c.toNat = false := by
    rw [isLowSurrogate, decide_eq_false (by omega), Bool.false_and]
  simp only [Text.hexLow, List.cons_append, List.nil_append] at hunit ⊢
  rw [readText, hunit]
  cases hrest : readText none rest <;> simp [hhigh, hlow]

theorem readText_plain (hblank : 32 ≤ c.toNat) (hquote : c ≠ '"') (hslash : c ≠ '\\')
    (rest : List Char) :
    readText none (c :: rest) =
      (readText none rest).map fun (text, rest) => (c :: text, rest) := by
  rw [readText]
  · rw [if_neg (by simp only [hslash, or_false]; omega)]
    cases readText none rest <;> rfl
  · exact hquote
  · exact fun _ _ _ _ _ hc => absurd hc hslash
  · exact fun _ _ hc => absurd hc hslash

/-! ## Members -/

/-- A new name is put among the others. -/
theorem insertMember_perm {name : String} (value : Json) {members : List (String × Json)}
    (h : name ∉ members.map Prod.fst) :
    (insertMember name value members).Perm ((name, value) :: members) := by
  induction members with
  | nil => exact .refl _
  | cons member rest ih =>
    obtain ⟨other, old⟩ := member
    rw [List.map_cons, List.mem_cons, not_or] at h
    rw [insertMember]
    split
    · exact .refl _
    next heq => exact absurd (Text.order_eq_eq.1 heq) h.1
    · exact ((ih h.2).cons _).trans (.swap ..)

/-- An object has the members that it was made of, if no two have one name. -/
theorem ofMembers_perm {members : List (String × Json)} (h : (members.map Prod.fst).Nodup) :
    ∃ sorted, ofMembers members = .object sorted ∧ sorted.Perm members := by
  have hfold : ∀ (members before : List (String × Json)),
      ((before ++ members).map Prod.fst).Nodup →
      (members.foldl (fun sorted member => insertMember member.1 member.2 sorted) before).Perm
        (before ++ members) := by
    intro members
    induction members with
    | nil =>
      intro before _
      rw [List.append_nil]
      exact .refl _
    | cons member rest ih =>
      intro before hdistinct
      have hmoved : (before ++ member :: rest).Perm (member :: before ++ rest) :=
        List.perm_middle
      have hnew : member.1 ∉ before.map Prod.fst := by
        have hfront := (hmoved.map Prod.fst).nodup_iff.1 hdistinct
        rw [List.cons_append, List.map_cons, List.map_append, List.nodup_cons] at hfront
        exact fun hmem => hfront.1 (List.mem_append_left _ hmem)
      have hplaced := insertMember_perm member.2 hnew
      have hall := (hplaced.append_right rest).trans hmoved.symm
      exact (ih _ ((hall.map Prod.fst).nodup_iff.2 hdistinct)).trans hall
  exact ⟨_, rfl, hfold members [] h⟩

end Json

namespace Record

open Json (readText readString readMembers readValue)

/-! ## Quoted texts -/

theorem isControl_hexDigit {n : Nat} (h : n < 16) : isControl (Text.hexDigit n) = false := by
  have hall : ∀ n : Fin 16, isControl (Text.hexDigit n) = false := by decide
  exact hall ⟨n, h⟩

theorem toNat_of_isControl {c : Char} (h : isControl c = true) : c.toNat < 160 := by
  simp only [isControl, Bool.or_eq_true, Bool.and_eq_true, decide_eq_true_eq] at h
  omega

/-- A character stands as one letter behind a backslash, as its code point if it is a control
character, and as it is otherwise. -/
theorem escapedChar_cases (c : Char) :
    (∃ e, Json.escape? e = some c ∧ e ≠ 'u' ∧ isControl e = false ∧ escapedChar c = ['\\', e]) ∨
    (isControl c = true ∧ escapedChar c = '\\' :: 'u' :: Text.hexLow 4 c.toNat) ∨
    (isControl c = false ∧ c ≠ '"' ∧ c ≠ '\\' ∧ escapedChar c = [c]) := by
  rw [escapedChar]
  split
  next hc => exact .inl ⟨'"', by rw [hc]; rfl, by decide, rfl, rfl⟩
  split
  next hc => exact .inl ⟨'\\', by rw [hc]; rfl, by decide, rfl, rfl⟩
  split
  next hc => exact .inl ⟨'n', by rw [hc]; rfl, by decide, rfl, rfl⟩
  split
  next hc => exact .inl ⟨'r', by rw [hc]; rfl, by decide, rfl, rfl⟩
  split
  next hc => exact .inl ⟨'t', by rw [hc]; rfl, by decide, rfl, rfl⟩
  split
  next hcontrol => exact .inr (.inl ⟨hcontrol, rfl⟩)
  next hquote hslash _ _ _ hcontrol =>
    exact .inr (.inr ⟨by simpa using hcontrol, hquote, hslash, rfl⟩)

/-- What stands for a character holds no control character. -/
theorem isControl_of_mem_escapedChar {c d : Char} (h : d ∈ escapedChar c) :
    isControl d = false := by
  rcases escapedChar_cases c with ⟨e, -, -, he, heq⟩ | ⟨-, heq⟩ | ⟨hc, -, -, heq⟩
  · rw [heq, List.mem_cons, List.mem_singleton] at h
    rcases h with rfl | rfl
    · rfl
    · exact he
  · rw [heq, List.mem_cons, List.mem_cons] at h
    rcases h with rfl | rfl | hdigit
    · rfl
    · rfl
    · obtain ⟨n, hn, rfl⟩ := Text.mem_hexLow hdigit
      exact isControl_hexDigit hn
  · rw [heq, List.mem_singleton] at h
    rw [h, hc]

/-- What stands for a character is read as that character. -/
theorem readText_escapedChar (c : Char) (rest : List Char) :
    readText none (escapedChar c ++ rest) =
      (readText none rest).map fun (text, rest) => (c :: text, rest) := by
  rcases escapedChar_cases c with ⟨e, hread, he, -, heq⟩ | ⟨hc, heq⟩ | ⟨hc, hquote, hslash, heq⟩
  · rw [heq]
    exact Json.readText_escape hread he rest
  · rw [heq]
    have hlow := toNat_of_isControl hc
    exact Json.readText_codePoint (by omega) rest
  · rw [heq]
    have hblank : 32 ≤ c.toNat := by
      simp only [isControl, Bool.or_eq_false_iff, decide_eq_false_iff_not] at hc
      omega
    exact Json.readText_plain hblank hquote hslash rest

/-- A text is read back from between its quotes. -/
theorem readString_quoted (text : String) (rest : List Char) :
    readString (quoted text ++ rest) = some (text, rest) := by
  have hread : ∀ chars : List Char,
      readText none (chars.flatMap escapedChar ++ '"' :: rest) = some (chars, rest) := by
    intro chars
    induction chars with
    | nil => rfl
    | cons c chars ih =>
      rw [List.flatMap_cons, List.append_assoc, readText_escapedChar, ih]
      rfl
  rw [quoted, List.cons_append, List.cons_append, List.append_assoc, readString,
    List.singleton_append, hread]
  exact congrArg (fun text => some (text, rest)) String.ofList_toList

/-! ## Lines -/

/-- The member that a field is. -/
def member (field : String × String) : String × Json :=
  (field.1, .string field.2)

/-- The members of the object that a record is written as. -/
def members (record : Record) : List (String × Json) :=
  ("event", .string record.event) :: ("severity", .string record.severity.name) ::
    record.fields.map member

theorem skipSpace_quoted (text : String) (rest : List Char) :
    Json.skipSpace (quoted text ++ rest) = quoted text ++ rest :=
  rfl

theorem readValue_quoted (fuel depth : Nat) (text : String) (rest : List Char) :
    readValue (fuel + 1) depth (quoted text ++ rest) = some (.string text, rest) := by
  have hread := readString_quoted text rest
  rw [quoted, List.cons_append, List.cons_append] at hread ⊢
  rw [readValue]
  · exact congrArg (Option.map fun read => (Json.string read.1, read.2)) hread

/-- The last member is followed by the closing brace. -/
theorem readMembers_last (fuel depth : Nat) (field : String × String) (rest : List Char) :
    readMembers (fuel + 2) depth (quoted field.1 ++ ':' :: (quoted field.2 ++ '\x7d' :: rest)) =
      some ([member field], rest) := by
  have hvalue := readValue_quoted fuel depth field.2 ('\x7d' :: rest)
  rw [readMembers, skipSpace_quoted, readString_quoted]
  change (readValue (fuel + 1) depth _ >>= _) = _
  rw [hvalue]
  rfl

/-- A member behind which a comma stands is followed by others. -/
theorem readMembers_next (fuel depth : Nat) (field : String × String) (rest : List Char) :
    readMembers (fuel + 2) depth (quoted field.1 ++ ':' :: (quoted field.2 ++ ',' :: rest)) =
      (readMembers (fuel + 1) depth rest).map fun (members, rest) =>
        (member field :: members, rest) := by
  have hvalue := readValue_quoted fuel depth field.2 (',' :: rest)
  rw [readMembers, skipSpace_quoted, readString_quoted]
  change (readValue (fuel + 1) depth _ >>= _) = _
  rw [hvalue]
  change (readMembers (fuel + 1) depth rest >>= _) = _
  cases readMembers (fuel + 1) depth rest <;> rfl

/-- Fields behind each other are read as the members they are, up to the closing brace. -/
theorem readMembers_fields {fuel : Nat} (depth : Nat) (field : String × String)
    {fields : List (String × String)} (hfuel : fields.length + 2 ≤ fuel) (rest : List Char) :
    readMembers fuel depth
        (quoted field.1 ++ ':' :: (quoted field.2 ++ (fields.flatMap fieldChars ++ '\x7d' :: rest))) =
      some ((field :: fields).map member, rest) := by
  obtain ⟨fuel, rfl⟩ : ∃ n, fuel = n + 2 := ⟨fuel - 2, by omega⟩
  induction fields generalizing fuel field with
  | nil => exact readMembers_last fuel depth field rest
  | cons next fields ih =>
    obtain ⟨fuel, rfl⟩ : ∃ n, fuel = n + 1 := ⟨fuel - 1, by simp at hfuel; omega⟩
    have hnext : (next :: fields).flatMap fieldChars ++ '\x7d' :: rest =
        ',' :: (quoted next.1 ++ ':' ::
          (quoted next.2 ++ (fields.flatMap fieldChars ++ '\x7d' :: rest))) := by
      rw [List.flatMap_cons, fieldChars]
      simp only [List.cons_append, List.append_assoc]
    rw [hnext, readMembers_next, ih next fuel (by simpa using hfuel)]
    rfl

/-! ## Fields in order -/

theorem placeField_perm (field : String × String) (fields : List (String × String)) :
    (placeField field fields).Perm (field :: fields) := by
  induction fields with
  | nil => exact .refl _
  | cons other rest ih =>
    rw [placeField]
    split
    · exact (ih.cons other).trans (.swap ..)
    · exact .refl _

theorem sortFields_perm (fields : List (String × String)) : (sortFields fields).Perm fields := by
  induction fields with
  | nil => exact .refl _
  | cons field rest ih => exact (placeField_perm field _).trans (ih.cons field)

/-- One field stands before another by its name. -/
def Before (a b : String × String) : Prop :=
  Text.order a.1 b.1 = .lt

theorem Before.irrefl {a b : String × String} (hab : Before a b) (hba : Before b a) : False := by
  rw [Before, ← Text.order_swap, hab] at hba
  cases hba

theorem pairwise_placeField {field : String × String} {fields : List (String × String)}
    (hnew : field.1 ∉ fields.map Prod.fst) (h : fields.Pairwise Before) :
    (placeField field fields).Pairwise Before := by
  induction fields with
  | nil => exact List.pairwise_singleton _ _
  | cons other rest ih =>
    obtain ⟨hother, hrest⟩ := List.pairwise_cons.1 h
    rw [List.map_cons, List.mem_cons, not_or] at hnew
    rw [placeField]
    split
    next hgt =>
      refine .cons (fun later hlater => ?_) (ih hnew.2 hrest)
      rcases List.mem_cons.1 ((placeField_perm field rest).mem_iff.1 hlater) with rfl | hlater
      · rw [Before, ← Text.order_swap, hgt]
        rfl
      · exact hother later hlater
    next hle =>
      have hbefore : Before field other := by
        cases horder : Text.order field.1 other.1 with
        | lt => exact horder
        | eq => exact absurd (Text.order_eq_eq.1 horder) hnew.1
        | gt => exact absurd horder hle
      refine .cons (fun later hlater => ?_) h
      rcases List.mem_cons.1 hlater with rfl | hlater
      · exact hbefore
      · exact Text.order_lt_trans hbefore (hother later hlater)

theorem pairwise_sortFields {fields : List (String × String)} (h : (fields.map Prod.fst).Nodup) :
    (sortFields fields).Pairwise Before := by
  induction fields with
  | nil => exact .nil
  | cons field rest ih =>
    obtain ⟨hnew, hrest⟩ := List.nodup_cons.1 h
    refine pairwise_placeField (fun hmem => hnew ?_) (ih hrest)
    exact ((sortFields_perm rest).map Prod.fst).mem_iff.1 hmem

/-- Fields of different names have one order. -/
theorem sortFields_eq_of_perm {fields fields' : List (String × String)}
    (h : (fields.map Prod.fst).Nodup) (hperm : fields'.Perm fields) :
    sortFields fields' = sortFields fields := by
  have hsorted : (sortFields fields').Perm (sortFields fields) :=
    (sortFields_perm fields').trans (hperm.trans (sortFields_perm fields).symm)
  exact hsorted.eq_of_pairwise (fun a b _ _ hab hba => (hab.irrefl hba).elim)
    (pairwise_sortFields ((hperm.map Prod.fst).nodup_iff.2 h)) (pairwise_sortFields h)

/-! ## The line -/

/-- The event, and behind it the severity and the fields in order. -/
theorem lineChars_eq (record : Record) :
    record.lineChars =
      '\x7b' :: (quoted "event" ++ ':' :: (quoted record.event ++
        ((("severity", record.severity.name) :: sortFields record.fields).flatMap fieldChars ++
          ['\x7d', '\n']))) := by
  rw [lineChars, List.flatMap_cons, fieldChars]
  simp only [List.cons_append, List.append_assoc, List.nil_append]

theorem isControl_of_mem_quoted {text : String} {c : Char} (h : c ∈ quoted text) :
    isControl c = false := by
  rw [quoted, List.cons_append, List.mem_cons, List.mem_append, List.mem_flatMap,
    List.mem_singleton] at h
  rcases h with rfl | ⟨d, -, hc⟩ | rfl
  · rfl
  · exact isControl_of_mem_escapedChar hc
  · rfl

theorem isControl_of_mem_fieldChars {field : String × String} {c : Char}
    (h : c ∈ fieldChars field) : isControl c = false := by
  rw [fieldChars, List.cons_append, List.mem_cons, List.mem_append, List.mem_cons] at h
  rcases h with rfl | hname | rfl | hvalue
  · rfl
  · exact isControl_of_mem_quoted hname
  · rfl
  · exact isControl_of_mem_quoted hvalue

/-- The only control character of a line is its last. -/
theorem exists_body (record : Record) :
    ∃ body, record.lineChars = body ++ ['\n'] ∧ ∀ c ∈ body, isControl c = false := by
  refine ⟨'\x7b' :: (quoted "event" ++ ':' :: (quoted record.event ++
    ((("severity", record.severity.name) :: sortFields record.fields).flatMap fieldChars ++
      ['\x7d']))), ?_, fun c hc => ?_⟩
  · rw [lineChars_eq]
    simp only [List.cons_append, List.append_assoc, List.nil_append]
  · simp only [List.mem_cons, List.mem_append, List.mem_flatMap, List.not_mem_nil, or_false] at hc
    rcases hc with rfl | hname | rfl | hvalue | ⟨field, -, hfield⟩ | rfl
    · rfl
    · exact isControl_of_mem_quoted hname
    · rfl
    · exact isControl_of_mem_quoted hvalue
    · exact isControl_of_mem_fieldChars hfield
    · rfl

/-- The fields do not outnumber the characters of the line. -/
theorem length_fields_le (record : Record) :
    (sortFields record.fields).length + 1 ≤ record.lineChars.length := by
  have hcount : ∀ fields : List (String × String),
      fields.length ≤ (fields.flatMap fieldChars).length := by
    intro fields
    induction fields with
    | nil => exact Nat.le_refl _
    | cons field rest ih =>
      rw [List.flatMap_cons, List.length_append, List.length_cons, fieldChars, List.cons_append,
        List.length_cons]
      omega
  have hfields := hcount (("severity", record.severity.name) :: sortFields record.fields)
  rw [lineChars_eq, List.length_cons, List.length_append, List.length_cons, List.length_append,
    List.length_append]
  rw [List.length_cons] at hfields
  omega

theorem readValue_lineChars (fuel depth : Nat) (record : Record)
    (hfuel : (sortFields record.fields).length + 3 ≤ fuel) :
    readValue (fuel + 1) (depth + 1) record.lineChars =
      some (Json.ofMembers (members { record with fields := sortFields record.fields }),
        ['\n']) := by
  have hlength :
      (("severity", record.severity.name) :: sortFields record.fields).length + 2 ≤ fuel := by
    rwa [List.length_cons]
  have hmembers := readMembers_fields depth ("event", record.event) hlength ['\n']
  rw [lineChars_eq, readValue]
  exact congrArg (Option.map fun (members, rest) => (Json.ofMembers members, rest)) hmembers

/-- A line is read as the object with the members of its record. -/
theorem parse?_line (record : Record) :
    Json.parse? record.line =
      some (Json.ofMembers (members { record with fields := sortFields record.fields })) := by
  have hfuel := length_fields_le record
  have hvalue := readValue_lineChars (2 * record.lineChars.length + 3) 126 record (by omega)
  simp only [Json.parse?, line, String.toList_ofList, Json.readFuel, Json.depthLimit, hvalue]
  rfl

/-- The line of a record ends in its only control character, is read as the object with just the
event, the severity and the fields of the record, and is the same in whatever order the fields are
given, as long as these have names of their own. -/
theorem line_faithful (record : Record)
    (distinct : ("event" :: "severity" :: record.fields.map Prod.fst).Nodup) :
    (∃ body, record.line.toList = body ++ ['\n'] ∧ ∀ c ∈ body, isControl c = false) ∧
    (∃ members, Json.parse? record.line = some (.object members) ∧
      members.Perm record.members) ∧
    ∀ fields, fields.Perm record.fields → line { record with fields := fields } = record.line := by
  have hsorted := sortFields_perm record.fields
  refine ⟨?_, ?_, fun fields hperm => ?_⟩
  · rw [line, String.toList_ofList]
    exact exists_body record
  · have hmembers : (members { record with fields := sortFields record.fields }).Perm
        record.members := ((hsorted.map member).cons _).cons _
    have hnames : (record.members.map Prod.fst).Nodup := by
      rw [members, List.map_cons, List.map_cons, List.map_map]
      exact distinct
    obtain ⟨sorted, hobject, hperm⟩ :=
      Json.ofMembers_perm ((hmembers.map Prod.fst).nodup_iff.2 hnames)
    exact ⟨sorted, by rw [parse?_line, hobject], hperm.trans hmembers⟩
  · have hfields : (record.fields.map Prod.fst).Nodup :=
      (List.nodup_cons.1 (List.nodup_cons.1 distinct).2).2
    rw [line, line, lineChars, lineChars, sortFields_eq_of_perm hfields hperm]

/-- A record whose texts hold every kind of character that is escaped. -/
def awkward : Record where
  severity := .warn
  event := "a\"b\\c\n"
  fields := [("zebra", "\r\t"), ("apple\x7f", "\x00\x85"), ("", "plain")]

theorem awkward_line_faithful :
    ("event" :: "severity" :: awkward.fields.map Prod.fst).Nodup ∧
    (∃ body, awkward.line.toList = body ++ ['\n'] ∧ ∀ c ∈ body, isControl c = false) ∧
    (∃ members, Json.parse? awkward.line = some (.object members) ∧
      members.Perm awkward.members) ∧
    line { awkward with fields := awkward.fields.reverse } = awkward.line := by
  have distinct : ("event" :: "severity" :: awkward.fields.map Prod.fst).Nodup := by decide
  obtain ⟨hbody, hparsed, hanyOrder⟩ := line_faithful awkward distinct
  exact ⟨distinct, hbody, hparsed, hanyOrder _ (List.reverse_perm _)⟩

end Record

end Viewbase
