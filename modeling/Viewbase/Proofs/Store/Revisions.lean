import Viewbase.Proofs.Store.Chronicle
import Viewbase.Proofs.Store.Succession
import Viewbase.Proofs.Text.Numerals
import Viewbase.Query.Params

/-!
Revisions of documents, over a whole history.

The text of a revision tells the revision (`text_inj`), and the count is read back from it
(`countOf_text`), so the next text can be made from the text alone (`text_next`).  Main statement:
after any history the revision of a document counts its puts and deletions and names the generation
of the last of them, every such call makes its answer from the text that the document had, and no
two calls answer the same text (`revisions_count_and_never_repeat`).

One put or deletion adds itself to the count (`Counts.revise`), and all other commands leave the
count as it is (`Counts.keep`, `Counts.of_documents`).
-/

namespace Viewbase

namespace Revision

/-! ## Texts of revisions -/

/-- The number that the text before the first hyphen stands for, with or without a plus sign; zero
if it stands for none of 64 bits. -/
def countOf (text : String) : Nat :=
  let digits := match text.toList.takeWhile (· != '-') with
    | '+' :: digits => digits
    | digits => digits
  ((Params.digits? digits).filter fun n => decide (n < 2 ^ 64)).getD 0

theorem isDigit_of_mem_toDigits {n : Nat} {c : Char} (h : c ∈ Nat.toDigits 10 n) :
    Json.isDigit c = true := by
  have hdigit := Nat.isDigit_of_mem_toDigits (by omega) (by omega) h
  rw [Char.isDigit, Bool.and_eq_true, decide_eq_true_iff, decide_eq_true_iff] at hdigit
  rw [Json.isDigit, Bool.and_eq_true, decide_eq_true_iff, decide_eq_true_iff]
  exact hdigit

theorem digits?_toDigits (n : Nat) : Params.digits? (Nat.toDigits 10 n) = some n := by
  have hvalue : Json.digitsValue (Nat.toDigits 10 n) = n :=
    Nat.ofDigitChars_toDigits (by omega) (by omega)
  have hall : (Nat.toDigits 10 n).all Json.isDigit = true :=
    List.all_eq_true.2 fun c hc => isDigit_of_mem_toDigits hc
  rw [Params.digits?]
  · rw [if_pos hall, hvalue]
  · exact Nat.toDigits_ne_nil

theorem takeWhile_text (rev : Revision) :
    rev.text.toList.takeWhile (· != '-') = Nat.toDigits 10 rev.count := by
  have hdigits : ∀ c ∈ Nat.toDigits 10 rev.count, (c != '-') = true := by
    intro c hc
    rw [bne_iff_ne]
    rintro rfl
    exact absurd (isDigit_of_mem_toDigits hc) (by decide)
  rw [text, String.toList_ofList, List.takeWhile_append_of_pos hdigits,
    List.takeWhile_cons_of_neg (by decide), List.append_nil]

/-- The count is read back from the text. -/
theorem countOf_text {rev : Revision} (h : rev.count < 2 ^ 64) : countOf rev.text = rev.count := by
  have hunsigned : ∀ {digits : List Char}, (∀ c ∈ digits, Json.isDigit c = true) →
      (match digits with
        | '+' :: digits => digits
        | digits => digits) = digits := by
    intro digits hdigits
    split
    next rest => exact absurd (hdigits '+' List.mem_cons_self) (by decide)
    next => rfl
  rw [countOf, takeWhile_text, hunsigned fun c hc => isDigit_of_mem_toDigits hc, digits?_toDigits,
    Option.filter_some, if_pos (decide_eq_true h), Option.getD_some]

/-- The text of a revision tells the revision. -/
theorem text_inj {a b : Revision} : a.text = b.text ↔ a = b := by
  refine ⟨fun h => ?_, congrArg text⟩
  have hdigits : Nat.toDigits 10 a.count = Nat.toDigits 10 b.count := by
    rw [← takeWhile_text, ← takeWhile_text, h]
  have hcount : a.count = b.count := by
    have hread := congrArg Params.digits? hdigits
    rw [digits?_toDigits, digits?_toDigits] at hread
    exact Option.some.inj hread
  have hgeneration : a.generation = b.generation := by
    rw [text, text, String.ofList_inj, hdigits, List.append_cancel_left_eq] at h
    have hread := congrArg Text.hexNumber? (List.cons.inj h).2
    rw [Text.hexNumber?_hexPadded, Text.hexNumber?_hexPadded] at hread
    exact Option.some.inj hread
  calc a = ⟨a.count, a.generation⟩ := rfl
    _ = ⟨b.count, b.generation⟩ := by rw [hcount, hgeneration]

/-- The count in decimal, a hyphen, and the generation in eight or more hexadecimal digits. -/
theorem text_eq (rev : Revision) :
    rev.text = toString rev.count ++ "-" ++ String.ofList (Text.hexPadded 8 rev.generation) := by
  have hcount : toString rev.count = String.ofList (Nat.toDigits 10 rev.count) := rfl
  have hhyphen : "-" = String.ofList ['-'] := rfl
  rw [hcount, hhyphen, ← String.ofList_append, ← String.ofList_append, List.append_assoc]
  rfl

/-- The next text is made from the text alone. -/
theorem text_next {previous : Option Revision} (h : ∀ rev ∈ previous, rev.count < 2 ^ 64)
    (generation : Nat) :
    (next previous generation).text =
      text ⟨countOf ((previous.map text).getD "") + 1, generation⟩ := by
  cases previous with
  | none => rfl
  | some rev =>
    rw [next, Option.map_some, Option.getD_some, Option.map_some, Option.getD_some,
      countOf_text (h rev rfl)]

end Revision

/-! ## Calls that make revisions -/

/-- A put or a deletion that succeeded. -/
structure Revising where
  id : String
  /-- The generation that it made. -/
  generation : Nat
  /-- The text of the revision that the document had, empty if there was no document. -/
  before : String
  /-- The text that it answered. -/
  answered : String

namespace Revising

/-- The calls for one document. -/
def named (id : String) (calls : List Revising) : List Revising :=
  calls.filter fun call => call.id == id

theorem named_append_self (calls : List Revising) (call : Revising) :
    named call.id (calls ++ [call]) = named call.id calls ++ [call] := by
  rw [named, List.filter_append, List.filter_cons_of_pos (by simp), List.filter_nil]
  rfl

theorem named_append_of_ne {call : Revising} {id : String} (h : call.id ≠ id)
    (calls : List Revising) : named id (calls ++ [call]) = named id calls := by
  rw [named, List.filter_append, List.filter_cons_of_neg (by simpa using h), List.filter_nil,
    List.append_nil]
  rfl

end Revising

namespace Store

/-- What an edit of a document comes to as a call, if it succeeds. -/
def revising? (s : Store) (id : String) (edit : Edit) : Option Revising :=
  match s.write id edit with
  | .ok (written, doc) =>
    some ⟨id, written.generation, ((s.document? id).map fun old => old.rev.text).getD "",
      doc.rev.text⟩
  | .error _ => none

/-- The call that a put or a deletion is, if it succeeds. -/
def revises? (s : Store) : Command → Option Revising
  | .put id body => s.revising? id (putEdit id body)
  | .delete id => s.revising? id (deleteEdit id)
  | _ => none

/-- The puts and deletions that succeeded in a run, in turn. -/
abbrev revisions (s : Store) (history : List Command) : List Revising :=
  s.chronicle revises? history

/-- The revisions of a store count the calls that made them. -/
structure Counts (s : Store) (calls : List Revising) : Prop where
  current : ∀ id, (s.document? id).map Document.rev =
    (Revising.named id calls).getLast?.map fun last =>
      ⟨(Revising.named id calls).length, last.generation⟩
  /-- No document was written more often than the store. -/
  bounded : ∀ id doc, s.document? id = some doc → doc.rev.count ≤ s.generation
  past : ∀ call ∈ calls, call.generation ≤ s.generation
  ascending : calls.Pairwise fun call later => call.generation < later.generation
  /-- Every call answered the revision after the one that the document had. -/
  answered : ∀ call ∈ calls, ∃ previous : Option Revision,
    call.before = (previous.map Revision.text).getD "" ∧
    call.answered = (Revision.next previous call.generation).text ∧
    ∀ rev ∈ previous, rev.count < call.generation

variable {s s' : Store} {calls : List Revising} {id : String} {edit : Edit}

theorem counts_empty (numbered : Nat) : (empty numbered).Counts [] where
  current := fun _ => rfl
  bounded := nofun
  past := nofun
  ascending := .nil
  answered := nofun

/-- What leaves the revisions alone leaves the count alone. -/
theorem Counts.of_revisions (h : s.Counts calls) (hgeneration : s.generation ≤ s'.generation)
    (hrevisions : ∀ id, (s'.document? id).map Document.rev = (s.document? id).map Document.rev) :
    s'.Counts calls where
  current := fun id => (hrevisions id).trans (h.current id)
  bounded := by
    intro id doc hdoc
    have hsame := hrevisions id
    rw [hdoc, Option.map_some, eq_comm, Option.map_eq_some_iff] at hsame
    obtain ⟨old, hold, hrev⟩ := hsame
    rw [← hrev]
    exact Nat.le_trans (h.bounded id old hold) hgeneration
  past := fun call hcall => Nat.le_trans (h.past call hcall) hgeneration
  ascending := h.ascending
  answered := h.answered

/-- An edit that keeps the revision of its document leaves the count alone. -/
theorem Counts.keep (h : s.Counts calls) (hid : KeepsId id edit)
    (hrev : ∀ generation old doc, edit generation old = .ok doc →
      old.map Document.rev = some doc.rev) : (s.written id edit).Counts calls := by
  rw [written]
  split
  next s' doc hwrite =>
    have hrewrites := rewrites_write hid hwrite
    refine h.of_revisions (by rw [hrewrites.generation]; exact Nat.le_succ _) fun other => ?_
    by_cases hother : other = id
    · rw [hother, hrewrites.document, Option.map_some]
      exact (hrev _ _ _ (write_eq_ok hwrite).1).symm
    · rw [hrewrites.others other hother]
  next => exact h

/-- The revisions after one more call. -/
theorem Counts.append (h : s.Counts calls) {call : Revising} {doc : Document}
    (hgeneration : s'.generation = s.generation + 1) (hcall : call.generation = s'.generation)
    (hbefore : call.before = ((s.document? call.id).map fun old => old.rev.text).getD "")
    (hanswered : call.answered = doc.rev.text)
    (hrev : doc.rev = Revision.next ((s.document? call.id).map Document.rev) s'.generation)
    (hdoc : s'.document? call.id = some doc)
    (hothers : ∀ other, other ≠ call.id → s'.document? other = s.document? other) :
    s'.Counts (calls ++ [call]) where
  current := by
    intro id
    by_cases hid : id = call.id
    · have hcount : (((Revising.named id calls).getLast?.map fun last =>
          (⟨(Revising.named id calls).length, last.generation⟩ : Revision)).map
            Revision.count).getD 0 = (Revising.named id calls).length := by
        cases hlast : (Revising.named id calls).getLast? with
        | none => rw [List.getLast?_eq_none_iff.1 hlast]; rfl
        | some last => rfl
      subst hid
      rw [hdoc, Revising.named_append_self, List.getLast?_concat, List.length_append,
        List.length_singleton, Option.map_some, Option.map_some, hrev, h.current, hcall,
        Revision.next, hcount]
    · rw [Revising.named_append_of_ne (Ne.symm hid), hothers id hid]
      exact h.current id
  bounded := by
    intro id other hother
    by_cases hid : id = call.id
    · rw [hid, hdoc] at hother
      rw [← Option.some.inj hother, hrev, hgeneration, Revision.next]
      cases hold : s.document? call.id with
      | none => exact Nat.le_add_left 1 _
      | some old => exact Nat.succ_le_succ (h.bounded call.id old hold)
    · rw [hothers id hid] at hother
      have hbounded := h.bounded id other hother
      omega
  past := by
    intro other hother
    rcases List.mem_append.1 hother with hold | hnew
    · have hpast := h.past other hold
      omega
    · rw [List.mem_singleton.1 hnew, hcall]
  ascending := by
    refine List.pairwise_append.2 ⟨h.ascending, List.pairwise_singleton _ _, ?_⟩
    intro other hother last hlast
    have hpast := h.past other hother
    rw [List.mem_singleton.1 hlast, hcall]
    omega
  answered := by
    intro other hother
    rcases List.mem_append.1 hother with hold | hnew
    · exact h.answered other hold
    · rw [List.mem_singleton.1 hnew]
      refine ⟨(s.document? call.id).map Document.rev, ?_, ?_, fun rev hmem => ?_⟩
      · rw [hbefore, Option.map_map]
        rfl
      · rw [hanswered, hrev, hcall]
      · obtain ⟨old, hold, rfl⟩ := Option.map_eq_some_iff.1 hmem
        have hbounded := h.bounded call.id old hold
        omega

/-- An edit that makes the next revision of its document is one more call. -/
theorem Counts.revise (h : s.Counts calls) (hid : KeepsId id edit)
    (hrev : ∀ generation (old : Option Document) doc, edit generation old = .ok doc →
      doc.rev = Revision.next (old.map Document.rev) generation) :
    (s.written id edit).Counts (calls ++ (s.revising? id edit).toList) := by
  rw [written, revising?]
  cases hwrite : s.write id edit with
  | error error =>
    rw [Option.toList_none, List.append_nil]
    exact h
  | ok result =>
    obtain ⟨s', doc⟩ := result
    have hrewrites := rewrites_write hid hwrite
    refine h.append hrewrites.generation rfl rfl rfl ?_ hrewrites.document hrewrites.others
    rw [hrewrites.generation]
    exact hrev _ _ _ (write_eq_ok hwrite).1

/-! ## Histories -/

theorem rev_putEdit {body : Json} {generation : Nat} {old : Option Document} {doc : Document}
    (h : putEdit id body generation old = .ok doc) :
    doc.rev = Revision.next (old.map Document.rev) generation := by
  cases h
  rfl

theorem rev_deleteEdit {generation : Nat} {old : Option Document} {doc : Document}
    (h : deleteEdit id generation old = .ok doc) :
    doc.rev = Revision.next (old.map Document.rev) generation := by
  cases old with
  | none => cases h
  | some d =>
    rw [deleteEdit] at h
    split at h <;> cases h
    rfl

theorem rev_conflictEdit {rev : String} {generation : Nat} {old : Option Document} {doc : Document}
    (h : conflictEdit id rev generation old = .ok doc) : old.map Document.rev = some doc.rev := by
  cases old with
  | none => cases h
  | some d =>
    rw [conflictEdit] at h
    split at h <;>
      · cases h
        rfl

theorem rev_resolveEdit {generation : Nat} {old : Option Document} {doc : Document}
    (h : resolveEdit id generation old = .ok doc) : old.map Document.rev = some doc.rev := by
  cases old with
  | none => cases h
  | some d =>
    cases h
    rfl

/-- Every command keeps the count, with the call that it is. -/
theorem Counts.perform (h : s.Counts calls) (command : Command) :
    (s.perform command).Counts (calls ++ (s.revises? command).toList) := by
  have hsilent : ∀ {s' : Store}, s'.Counts calls →
      s'.Counts (calls ++ (none : Option Revising).toList) :=
    fun hcounts => (List.append_nil calls).symm ▸ hcounts
  have hquiet : command.edit? = none → (s.perform command).Counts calls := by
    intro hedit
    obtain ⟨hgeneration, hdocuments⟩ := documents_perform hedit s
    refine h.of_revisions (Nat.le_of_eq hgeneration.symm) fun id => ?_
    rw [document?, document?, hdocuments]
  cases command with
  | put id body => exact h.revise (keepsId_putEdit id body) fun _ _ _ => rev_putEdit
  | delete id => exact h.revise (keepsId_deleteEdit id) fun _ _ _ => rev_deleteEdit
  | addConflict id rev =>
    exact hsilent (h.keep (keepsId_conflictEdit id rev) fun _ _ _ => rev_conflictEdit)
  | resolveConflicts id =>
    exact hsilent (h.keep (keepsId_resolveEdit id) fun _ _ _ => rev_resolveEdit)
  | _ => exact hsilent (hquiet rfl)

theorem counts_after (numbered : Nat) (history : List Command) :
    (after numbered history).Counts ((empty numbered).revisions history) :=
  chronicle_induct counts_empty (fun _ _ command h => h.perform command) numbered history

/-- After fewer than 2 ^ 64 successful writes, the revision of a document is the number of its puts
and deletions so far and the generation of the last of them; every such call made its answer from
the text that the document had before; and no two of them answered the same text. -/
theorem revisions_count_and_never_repeat (numbered : Nat) (history : List Command)
    (writes : (after numbered history).generation < 2 ^ 64) :
    (∀ id, ((after numbered history).document? id).map (fun doc => doc.rev.text) =
      (Revising.named id ((empty numbered).revisions history)).getLast?.map fun last =>
        toString (Revising.named id ((empty numbered).revisions history)).length ++ "-" ++
          String.ofList (Text.hexPadded 8 last.generation)) ∧
    (∀ call ∈ (empty numbered).revisions history,
      call.answered = Revision.text ⟨Revision.countOf call.before + 1, call.generation⟩) ∧
    (((empty numbered).revisions history).map Revising.answered).Nodup := by
  have hcounts := counts_after numbered history
  refine ⟨fun id => ?_, fun call hcall => ?_, ?_⟩
  · have hcurrent := congrArg (Option.map Revision.text) (hcounts.current id)
    rw [Option.map_map, Option.map_map] at hcurrent
    refine hcurrent.trans (Option.map_congr fun last _ => ?_)
    exact Revision.text_eq _
  · obtain ⟨previous, hbefore, hanswered, hbounded⟩ := hcounts.answered call hcall
    have hpast := hcounts.past call hcall
    rw [hanswered, hbefore]
    exact Revision.text_next (fun rev hrev => by have := hbounded rev hrev; omega) call.generation
  · refine List.pairwise_map.2 (hcounts.ascending.imp_of_mem ?_)
    intro call later hcall hlater hascending heq
    obtain ⟨previous, -, hanswered, -⟩ := hcounts.answered call hcall
    obtain ⟨previous', -, hanswered', -⟩ := hcounts.answered later hlater
    rw [hanswered, hanswered', Revision.text_inj] at heq
    have hgeneration : call.generation = later.generation := congrArg Revision.generation heq
    omega

/-- A document that is put, deleted and put again, with another one and a conflict in between. -/
def rewritten : List Command :=
  [.put "a" .null, .put "b" .null, .delete "a", .addConflict "b" "x", .delete "a", .put "a" .null]

theorem revisions_of_rewritten :
    (after 0 rewritten).generation < 2 ^ 64 ∧
    ((after 0 rewritten).document? "a").map (fun doc => doc.rev.text) = some "3-00000005" ∧
    (((empty 0).revisions rewritten).map Revising.answered).Nodup := by
  have hwrites : (after 0 rewritten).generation < 2 ^ 64 := by decide
  obtain ⟨hcurrent, -, hdistinct⟩ := revisions_count_and_never_repeat 0 rewritten hwrites
  refine ⟨hwrites, ?_, hdistinct⟩
  rw [hcurrent "a"]
  decide

end Store

end Viewbase
