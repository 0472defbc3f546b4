import Mathlib.Data.List.Induction
import Viewbase.Query.Temporary

/-!
What can become of a temporary index.

Its record goes through any sequence of operations, in a world that may refuse to delete the index
at any time and for any reason.  Each operation makes one of a few moves, and what is kept by the
moves is kept by every history.
-/

namespace Viewbase.Temporary

variable {σ : Type}

/-- What can be done to a temporary index.  A scan goes by the number it was registered under. -/
inductive Operation where
  | acquireOwner
  | releaseOwner
  | releaseDeferred
  | deleteIndex
  | beginScan
  | endScan (scan : Nat)

/-- The world deletes as before, and counts how often it did. -/
def counted (delete : Delete σ) : Delete (σ × Nat) := fun index world =>
  match delete index world.1 with
  | (inner, .ok ()) => ((inner, world.2 + 1), .ok ())
  | (inner, .error error) => ((inner, world.2), .error error)

theorem isGone_eq_false {t : Temporary} (h : t.isGone = false) :
    t.deleted = false ∧ 0 < t.owners := by
  rw [isGone, Bool.or_eq_false_iff, beq_eq_false_iff_ne] at h
  exact ⟨h.1, Nat.pos_of_ne_zero h.2⟩

theorem isGone_of_owners {t : Temporary} (h : t.owners = 0) : t.isGone = true := by
  rw [isGone, h]
  simp

/-- Neither a share nor the registration of a scan can be had, in whatever world. -/
def RefusesUse (t : Temporary) : Prop :=
  ∀ {σ : Type} (world : σ),
    (t.acquireOwner world).reply = .error (.lifecycle (.alreadyDeleted t.index.id)) ∧
      (t.beginScan world).reply = .error (.unavailable (.temporary t.index.id))

theorem refusesUse_of_owners {t : Temporary} (h : t.owners = 0) : t.RefusesUse := by
  intro σ world
  rw [acquireOwner, beginScan, isGone_of_owners h]
  exact ⟨rfl, rfl⟩

/-- The index is deleted, which is counted, or it is refused and the record stays. -/
theorem deleteNow_cases (delete : Delete σ) (t : Temporary) (world : σ × Nat) :
    (∃ inner, deleteNow (counted delete) t world =
        ⟨{ t with deleted := true }, (inner, world.2 + 1), [.deleted], .ok ()⟩) ∨
      ∃ inner notes error, deleteNow (counted delete) t world =
        ⟨t, (inner, world.2), notes, .error error⟩ := by
  rw [deleteNow, counted]
  rcases delete t.index world.1 with ⟨inner, _ | _⟩
  · exact .inr ⟨inner, _, _, rfl⟩
  · exact .inl ⟨inner, rfl⟩

theorem deleteQuietly_cases (delete : Delete σ) (t : Temporary) (world : σ × Nat) :
    (∃ inner, deleteQuietly (counted delete) t world =
        ⟨{ t with deleted := true }, (inner, world.2 + 1), [.deleted], .ok ()⟩) ∨
      ∃ inner notes,
        deleteQuietly (counted delete) t world = ⟨t, (inner, world.2), notes, .ok ()⟩ := by
  rw [deleteQuietly]
  rcases deleteNow_cases delete t world with ⟨inner, h⟩ | ⟨inner, notes, error, h⟩
  · rw [h]
    exact .inl ⟨inner, rfl⟩
  · rw [h]
    exact .inr ⟨inner, _, rfl⟩

/-- A temporary index in use. -/
structure Usage (σ : Type) where
  record : Temporary
  /-- The world, and how often it has deleted the index. -/
  world : σ × Nat
  /-- The scans whose registration is held. -/
  scans : List Nat
  /-- How many scans were registered so far. -/
  begun : Nat

namespace Usage

/-- The index is just made. -/
def new (index : Descriptor) (world : σ) : Usage σ :=
  ⟨Temporary.new index, (world, 0), [], 0⟩

/-- How often the index has been deleted. -/
def deletions (u : Usage σ) : Nat :=
  u.world.2

/-- Take over what an operation leaves. -/
def leave (u : Usage σ) (step : Step (σ × Nat)) : Usage σ :=
  { u with record := step.record, world := step.world }

/-- Carry out an operation.  Only a scan that is registered can end. -/
def perform (delete : Delete σ) (u : Usage σ) : Operation → Usage σ
  | .acquireOwner => u.leave (u.record.acquireOwner u.world)
  | .releaseOwner => u.leave (u.record.releaseOwner (counted delete) u.world)
  | .releaseDeferred => u.leave (u.record.releaseDeferred (counted delete) u.world)
  | .deleteIndex => u.leave (u.record.deleteIndex (counted delete) u.world)
  | .beginScan =>
    let step := u.record.beginScan u.world
    match step.reply with
    | .ok () => { u.leave step with scans := u.begun :: u.scans, begun := u.begun + 1 }
    | .error _ => u.leave step
  | .endScan scan =>
    if scan ∈ u.scans then
      { u.leave (u.record.endScan (counted delete) u.world) with scans := u.scans.erase scan }
    else u

/-- The index after a history of operations on it. -/
def after (delete : Delete σ) (index : Descriptor) (world : σ) (history : List Operation) :
    Usage σ :=
  history.foldl (perform delete) (new index world)

@[simp] theorem after_nil (delete : Delete σ) (index : Descriptor) (world : σ) :
    after delete index world [] = new index world :=
  rfl

@[simp] theorem after_append (delete : Delete σ) (index : Descriptor) (world : σ)
    (history later : List Operation) :
    after delete index world (history ++ later) =
      later.foldl (perform delete) (after delete index world history) :=
  List.foldl_append

/-! ## What holds throughout -/

/-- The record agrees with the scans that are registered and with the deletions that took place. -/
structure Sound (u : Usage σ) : Prop where
  inFlight_eq : u.record.inFlight = u.scans.length
  idle : u.record.deleteWhenIdle →
    u.record.owners = 0 ∧ 0 < u.record.inFlight ∧ u.record.deleted = false
  gone : u.record.deleted → u.record.owners = 0 ∧ u.record.inFlight = 0
  deletions_eq : u.deletions = if u.record.deleted then 1 else 0

/-- On what occasion an operation deletes the index. -/
inductive Occasion (u : Usage σ) : Operation → Prop where
  | asked : Occasion u .deleteIndex
  | released (hlast : u.record.owners = 1) : Occasion u .releaseOwner
  | releasedDeferred (hlast : u.record.owners = 1) : Occasion u .releaseDeferred
  | idle {scan : Nat} (hidle : u.record.deleteWhenIdle) : Occasion u (.endScan scan)

/-- What an operation can do. -/
inductive Moves (u : Usage σ) : Operation → Usage σ → Prop where
  /-- Nothing, because there is nothing to do or because the record or the world refuses. -/
  | stays {operation : Operation} (inner : σ) :
      Moves u operation { u with world := (inner, u.deletions) }
  | takes (hheld : u.record.isGone = false) :
      Moves u .acquireOwner { u with record := { u.record with owners := u.record.owners + 1 } }
  | gives {operation : Operation} (hshared : 1 < u.record.owners) :
      Moves u operation { u with record := { u.record with owners := u.record.owners - 1 } }
  /-- The last share goes while a scan is registered. -/
  | defers (hlast : u.record.owners = 1) (hscanned : 0 < u.record.inFlight)
      (hkept : u.record.deleted = false) :
      Moves u .releaseDeferred
        { u with record := { u.record with owners := 0, deleteWhenIdle := true } }
  /-- The last share goes and the world refuses to delete. -/
  | abandons (inner : σ) (hlast : u.record.owners = 1) :
      Moves u .releaseDeferred
        { u with record := { u.record with owners := 0 }, world := (inner, u.deletions) }
  | begins (hheld : u.record.isGone = false) :
      Moves u .beginScan
        { u with
          record := { u.record with inFlight := u.record.inFlight + 1 }
          scans := u.begun :: u.scans
          begun := u.begun + 1 }
  /-- A scan ends, and others are registered or nothing waits for it. -/
  | ends {scan : Nat} (hscan : scan ∈ u.scans)
      (hwaiting : u.record.deleteWhenIdle → 1 < u.record.inFlight) :
      Moves u (.endScan scan)
        { u with
          record := { u.record with inFlight := u.record.inFlight - 1 }
          scans := u.scans.erase scan }
  /-- The last scan ends and the world refuses to delete. -/
  | endsInVain {scan : Nat} (inner : σ) (hscan : scan ∈ u.scans) :
      Moves u (.endScan scan)
        { u with
          record := { u.record with inFlight := u.record.inFlight - 1, deleteWhenIdle := false }
          scans := u.scans.erase scan
          world := (inner, u.deletions) }
  | deletes {operation : Operation} {left : Usage σ} (occasion : Occasion u operation)
      (hkept : u.record.deleted = false) (hdeleted : left.record.deleted = true)
      (howners : left.record.owners = 0) (hidle : left.record.deleteWhenIdle = false)
      (hinFlight : left.record.inFlight = 0) (hscans : left.scans = [])
      (hending : ∀ scan ∈ u.scans, operation = .endScan scan)
      (hbegun : left.begun = u.begun) (hdeletions : left.deletions = u.deletions + 1) :
      Moves u operation left

variable {u : Usage σ}

theorem Sound.deleteWhenIdle_eq_false (hsound : u.Sound) (h : u.record.inFlight = 0) :
    u.record.deleteWhenIdle = false := by
  cases hidle : u.record.deleteWhenIdle with
  | false => rfl
  | true =>
    have hscanned := (hsound.idle hidle).2.1
    omega

theorem Sound.scans_eq_nil (hsound : u.Sound) (h : u.record.inFlight = 0) : u.scans = [] := by
  rw [hsound.inFlight_eq] at h
  exact List.eq_nil_of_length_eq_zero h

/-- When no scan is registered, whatever happens happens under none. -/
theorem Sound.not_mem_scans (hsound : u.Sound) (h : u.record.inFlight = 0) {scan : Nat} :
    scan ∉ u.scans := by
  rw [hsound.scans_eq_nil h]
  exact List.not_mem_nil

theorem Sound.deleted_of_mem_scans (hsound : u.Sound) {scan : Nat} (h : scan ∈ u.scans) :
    u.record.deleted = false := by
  cases hdeleted : u.record.deleted with
  | false => rfl
  | true => exact absurd h (hsound.not_mem_scans (hsound.gone hdeleted).2)

theorem Sound.deletions_eq_zero (hsound : u.Sound) (h : u.record.deleted = false) :
    u.deletions = 0 := by
  rw [hsound.deletions_eq, h]
  rfl

theorem Sound.deletions_le_one (hsound : u.Sound) : u.deletions ≤ 1 := by
  rw [hsound.deletions_eq]
  split <;> omega

theorem moves_acquireOwner (delete : Delete σ) :
    u.Moves .acquireOwner (u.perform delete .acquireOwner) := by
  rw [perform, acquireOwner]
  split
  · exact .stays u.world.1
  · exact .takes (Bool.of_not_eq_true ‹_›)

theorem moves_releaseOwner (delete : Delete σ) (hsound : u.Sound) :
    u.Moves .releaseOwner (u.perform delete .releaseOwner) := by
  rw [perform, releaseOwner]
  split
  · exact .stays u.world.1
  · have hheld := isGone_eq_false (Bool.of_not_eq_true ‹_›)
    split
    · exact .stays u.world.1
    · split
      · -- The last share: without a registered scan, all is up to the world.
        have hinFlight : u.record.inFlight = 0 := by omega
        rcases deleteNow_cases delete { u.record with owners := 0 } u.world with
          ⟨inner, h⟩ | ⟨inner, notes, error, h⟩
        · rw [h]
          exact .deletes (.released ‹_›) hheld.1 rfl rfl
            (hsound.deleteWhenIdle_eq_false hinFlight) hinFlight (hsound.scans_eq_nil hinFlight)
            (fun _ hscan => absurd hscan (hsound.not_mem_scans hinFlight)) rfl rfl
        · rw [h]
          have hrecord : u.record = { u.record with owners := 1 } := by
            rw [← ‹u.record.owners = 1›]
          have hstays : u.Moves .releaseOwner { u with world := (inner, u.deletions) } :=
            .stays inner
          rw [hrecord] at hstays
          exact hstays
      · have hshared : 1 < u.record.owners := by omega
        exact .gives hshared

theorem moves_releaseDeferred (delete : Delete σ) (hsound : u.Sound) :
    u.Moves .releaseDeferred (u.perform delete .releaseDeferred) := by
  rw [perform, releaseDeferred]
  split
  · exact .stays u.world.1
  · have hkept : u.record.deleted = false := by
      cases hdeleted : u.record.deleted with
      | false => rfl
      | true =>
        have howners := (hsound.gone hdeleted).1
        contradiction
    dsimp only
    split
    · have hmore : 0 < u.record.owners - 1 ∨ u.record.deleted = true := ‹_›
      have hshared : 1 < u.record.owners := by
        rw [hkept] at hmore
        simp only [Bool.false_eq_true, or_false] at hmore
        omega
      exact .gives hshared
    · have hlast : u.record.owners = 1 := by omega
      have hrest : u.record.owners - 1 = 0 := by omega
      rw [hrest]
      split
      · exact .defers hlast ‹_› hkept
      · have hinFlight : u.record.inFlight = 0 := by omega
        rcases deleteQuietly_cases delete { u.record with owners := 0 } u.world with
          ⟨inner, h⟩ | ⟨inner, notes, h⟩
        · rw [h]
          exact .deletes (.releasedDeferred hlast) hkept rfl rfl
            (hsound.deleteWhenIdle_eq_false hinFlight) hinFlight (hsound.scans_eq_nil hinFlight)
            (fun _ hscan => absurd hscan (hsound.not_mem_scans hinFlight)) rfl rfl
        · rw [h]
          exact .abandons inner hlast

theorem moves_deleteIndex (delete : Delete σ) (hsound : u.Sound) :
    u.Moves .deleteIndex (u.perform delete .deleteIndex) := by
  rw [perform, deleteIndex]
  split
  · exact .stays u.world.1
  · have hkept : u.record.deleted = false := Bool.of_not_eq_true ‹_›
    split
    · exact .stays u.world.1
    · have hinFlight : u.record.inFlight = 0 := by omega
      rcases deleteNow_cases delete u.record u.world with ⟨inner, h⟩ | ⟨inner, notes, error, h⟩
      · rw [h]
        exact .deletes .asked hkept rfl rfl (hsound.deleteWhenIdle_eq_false hinFlight) hinFlight
          (hsound.scans_eq_nil hinFlight)
          (fun _ hscan => absurd hscan (hsound.not_mem_scans hinFlight)) rfl rfl
      · rw [h]
        exact .stays inner

theorem moves_beginScan (delete : Delete σ) : u.Moves .beginScan (u.perform delete .beginScan) := by
  cases hheld : u.record.isGone with
  | true =>
    simp only [perform, beginScan, hheld, if_true]
    exact .stays u.world.1
  | false =>
    simp only [perform, beginScan, hheld, Bool.false_eq_true, if_false]
    exact .begins hheld

theorem moves_endScan (delete : Delete σ) (hsound : u.Sound) (scan : Nat) :
    u.Moves (.endScan scan) (u.perform delete (.endScan scan)) := by
  rw [perform]
  split
  · have hscan : scan ∈ u.scans := ‹_›
    rw [endScan]
    split
    · -- It was the last one that was registered, and the index waits for it to be deleted.
      have hwaiting : u.record.inFlight - 1 = 0 ∧ u.record.deleteWhenIdle ∧
        ¬u.record.deleted := ‹_›
      obtain ⟨hinFlight, hidle, -⟩ := hwaiting
      obtain ⟨howners, -, hkept⟩ := hsound.idle hidle
      have hscans : u.scans.erase scan = [] := by
        have hlength := List.length_erase_of_mem hscan
        rw [← hsound.inFlight_eq, hinFlight] at hlength
        exact List.eq_nil_of_length_eq_zero hlength
      have hending : ∀ other ∈ u.scans, Operation.endScan scan = .endScan other := by
        intro other hother
        by_cases hsame : other = scan
        · rw [hsame]
        · have hleft := (List.mem_erase_of_ne hsame).2 hother
          rw [hscans] at hleft
          cases hleft
      rcases deleteQuietly_cases delete
          { u.record with inFlight := u.record.inFlight - 1, deleteWhenIdle := false } u.world with
        ⟨inner, h⟩ | ⟨inner, notes, h⟩
      · rw [h]
        exact .deletes (.idle hidle) hkept rfl howners rfl hinFlight hscans hending rfl rfl
      · rw [h]
        exact .endsInVain inner hscan
    · refine .ends hscan fun hidle => ?_
      have hkept := (hsound.idle hidle).2.2
      have hmore : ¬(u.record.inFlight - 1 = 0 ∧ u.record.deleteWhenIdle ∧
        ¬u.record.deleted) := ‹_›
      simp only [hidle, hkept, Bool.false_eq_true, not_false_eq_true, and_true] at hmore
      omega
  · exact .stays u.world.1

theorem perform_moves (delete : Delete σ) (hsound : u.Sound) (operation : Operation) :
    u.Moves operation (u.perform delete operation) := by
  cases operation with
  | acquireOwner => exact moves_acquireOwner delete
  | releaseOwner => exact moves_releaseOwner delete hsound
  | releaseDeferred => exact moves_releaseDeferred delete hsound
  | deleteIndex => exact moves_deleteIndex delete hsound
  | beginScan => exact moves_beginScan delete
  | endScan scan => exact moves_endScan delete hsound scan

/-! ## What the moves keep -/

variable {operation : Operation} {left : Usage σ}

theorem Moves.sound (hsound : u.Sound) (hmoves : u.Moves operation left) : left.Sound := by
  cases hmoves with
  | stays inner => exact ⟨hsound.inFlight_eq, hsound.idle, hsound.gone, hsound.deletions_eq⟩
  | takes hheld =>
    obtain ⟨hkept, howners⟩ := isGone_eq_false hheld
    refine ⟨hsound.inFlight_eq, fun hidle => ?_, fun hdeleted => ?_, hsound.deletions_eq⟩
    · have hnone := (hsound.idle hidle).1
      omega
    · have hnone := (hsound.gone hdeleted).1
      omega
  | gives hshared =>
    refine ⟨hsound.inFlight_eq, fun hidle => ?_, fun hdeleted => ?_, hsound.deletions_eq⟩
    · have hnone := (hsound.idle hidle).1
      omega
    · have hnone := (hsound.gone hdeleted).1
      omega
  | defers hlast hscanned hkept =>
    exact ⟨hsound.inFlight_eq, fun _ => ⟨rfl, hscanned, hkept⟩,
      fun hdeleted => ⟨rfl, (hsound.gone hdeleted).2⟩, hsound.deletions_eq⟩
  | abandons inner hlast =>
    exact ⟨hsound.inFlight_eq, fun hidle => ⟨rfl, (hsound.idle hidle).2⟩,
      fun hdeleted => ⟨rfl, (hsound.gone hdeleted).2⟩, hsound.deletions_eq⟩
  | begins hheld =>
    obtain ⟨hkept, howners⟩ := isGone_eq_false hheld
    refine ⟨?_, fun hidle => ?_, fun hdeleted => ?_, hsound.deletions_eq⟩
    · rw [List.length_cons, hsound.inFlight_eq]
    · have hnone := (hsound.idle hidle).1
      omega
    · have hnone := (hsound.gone hdeleted).1
      omega
  | ends hscan hwaiting =>
    refine ⟨?_, fun hidle => ?_, fun hdeleted => ?_, hsound.deletions_eq⟩
    · rw [List.length_erase_of_mem hscan, hsound.inFlight_eq]
    · obtain ⟨howners, -, hkept⟩ := hsound.idle hidle
      have hmore := hwaiting hidle
      exact ⟨howners, by dsimp only; omega, hkept⟩
    · obtain ⟨howners, hinFlight⟩ := hsound.gone hdeleted
      exact ⟨howners, by dsimp only; omega⟩
  | endsInVain inner hscan =>
    refine ⟨?_, fun hidle => ?_, fun hdeleted => ?_, hsound.deletions_eq⟩
    · rw [List.length_erase_of_mem hscan, hsound.inFlight_eq]
    · cases hidle
    · obtain ⟨howners, hinFlight⟩ := hsound.gone hdeleted
      exact ⟨howners, by dsimp only; omega⟩
  | deletes occasion hkept hdeleted howners hidle hinFlight hscans hending hbegun hdeletions =>
    refine ⟨?_, fun hwaiting => ?_, fun _ => ⟨howners, hinFlight⟩, ?_⟩
    · rw [hinFlight, hscans]
      rfl
    · rw [hidle] at hwaiting
      cases hwaiting
    · have hnone := hsound.deletions_eq
      rw [hkept] at hnone
      rw [hdeletions, hnone, hdeleted]
      rfl

theorem sound_new (index : Descriptor) (world : σ) : (new index world).Sound :=
  ⟨rfl, nofun, nofun, rfl⟩

theorem Sound.foldl (delete : Delete σ) (hsound : u.Sound) (later : List Operation) :
    (later.foldl (perform delete) u).Sound := by
  induction later generalizing u with
  | nil => exact hsound
  | cons operation later ih => exact ih ((perform_moves delete hsound operation).sound hsound)

theorem sound_after (delete : Delete σ) (index : Descriptor) (world : σ)
    (history : List Operation) : (after delete index world history).Sound :=
  (sound_new index world).foldl delete history

/-- The count of deletions rises on an occasion for it only, and no scan is registered then. -/
theorem Moves.deletions (hmoves : u.Moves operation left) :
    left.deletions = u.deletions ∨
      (left.deletions = u.deletions + 1 ∧ left.scans = [] ∧ Occasion u operation) := by
  cases hmoves with
  | deletes occasion _ _ _ _ _ hscans _ _ hdeletions => exact .inr ⟨hdeletions, hscans, occasion⟩
  | _ => exact .inl rfl

theorem Moves.of_begun_lt (hmoves : u.Moves operation left) (h : u.begun < left.begun) :
    u.begun ∈ left.scans ∧ u.record.deleted = false := by
  cases hmoves with
  | begins hheld => exact ⟨List.mem_cons_self, (isGone_eq_false hheld).1⟩
  | deletes _ _ _ _ _ _ _ _ hbegun =>
    rw [hbegun] at h
    exact absurd h (Nat.lt_irrefl _)
  | _ => exact absurd h (Nat.lt_irrefl _)

/-- Once the shares are gone no share is taken and no scan registered. -/
theorem Moves.of_owners_eq_zero (hmoves : u.Moves operation left) (h : u.record.owners = 0) :
    left.record.owners = 0 ∧ left.begun = u.begun := by
  cases hmoves with
  | takes hheld =>
    rw [isGone_of_owners h] at hheld
    cases hheld
  | begins hheld =>
    rw [isGone_of_owners h] at hheld
    cases hheld
  | gives hshared => omega
  | defers => exact ⟨rfl, rfl⟩
  | abandons => exact ⟨rfl, rfl⟩
  | deletes _ _ _ howners _ _ _ _ hbegun => exact ⟨howners, hbegun⟩
  | _ => exact ⟨h, rfl⟩

theorem foldl_of_owners_eq_zero (delete : Delete σ) (hsound : u.Sound) (h : u.record.owners = 0)
    (later : List Operation) :
    (later.foldl (perform delete) u).record.owners = 0 ∧
      (later.foldl (perform delete) u).begun = u.begun := by
  induction later generalizing u with
  | nil => exact ⟨h, rfl⟩
  | cons operation later ih =>
    have hmoves := perform_moves delete hsound operation
    obtain ⟨howners, hbegun⟩ := hmoves.of_owners_eq_zero h
    rw [List.foldl_cons, ← hbegun]
    exact ih (hmoves.sound hsound) howners

/-- A registered scan stays registered until it ends. -/
theorem Moves.mem_scans (hmoves : u.Moves operation left) {scan : Nat} (h : scan ∈ u.scans)
    (hother : operation ≠ .endScan scan) : scan ∈ left.scans := by
  have hne {ended : Nat} (hended : operation = .endScan ended) : scan ≠ ended := by
    rintro rfl
    exact hother hended
  cases hmoves with
  | begins => exact List.mem_cons_of_mem _ h
  | ends => exact (List.mem_erase_of_ne (hne rfl)).2 h
  | endsInVain => exact (List.mem_erase_of_ne (hne rfl)).2 h
  | deletes _ _ _ _ _ _ _ hending => exact absurd (hending scan h) hother
  | _ => exact h

theorem mem_scans_foldl (delete : Delete σ) (hsound : u.Sound) {scan : Nat} (h : scan ∈ u.scans)
    {later : List Operation} (hlater : .endScan scan ∉ later) :
    scan ∈ (later.foldl (perform delete) u).scans := by
  induction later generalizing u with
  | nil => exact h
  | cons operation later ih =>
    rw [List.mem_cons, not_or] at hlater
    have hmoves := perform_moves delete hsound operation
    exact ih (hmoves.sound hsound) (hmoves.mem_scans h (Ne.symm hlater.1)) hlater.2

/-- The index waits for its last scan only since its last share was given up under one. -/
theorem Moves.deleteWhenIdle (hmoves : u.Moves operation left) (h : left.record.deleteWhenIdle) :
    u.record.deleteWhenIdle ∨
      (operation = .releaseDeferred ∧ u.record.owners = 1 ∧ left.record.owners = 0) := by
  cases hmoves with
  | defers hlast => exact .inr ⟨rfl, hlast, rfl⟩
  | endsInVain => cases h
  | deletes _ _ _ _ hidle =>
    rw [hidle] at h
    cases h
  | _ => exact .inl h

/-! ## Every history -/

/-- `release` gives up the last share of the index after `history`. -/
def GivesUpLast (delete : Delete σ) (index : Descriptor) (world : σ) (history : List Operation)
    (release : Operation) : Prop :=
  (after delete index world history).record.owners = 1 ∧
    (after delete index world (history ++ [release])).record.owners = 0

variable (delete : Delete σ) (index : Descriptor) (world : σ)

theorem after_append_singleton (history : List Operation) (operation : Operation) :
    after delete index world (history ++ [operation]) =
      (after delete index world history).perform delete operation :=
  after_append delete index world history [operation]

theorem moves_after (history : List Operation) (operation : Operation) :
    (after delete index world history).Moves operation
      (after delete index world (history ++ [operation])) := by
  rw [after_append_singleton]
  exact perform_moves delete (sound_after delete index world history) operation

theorem exists_givesUpLast_of_deleteWhenIdle (history : List Operation)
    (h : (after delete index world history).record.deleteWhenIdle) :
    ∃ earlier, earlier ++ [.releaseDeferred] <+: history ∧
      GivesUpLast delete index world earlier .releaseDeferred := by
  induction history using List.reverseRecOn with
  | nil => cases h
  | append_singleton history operation ih =>
    rcases (moves_after delete index world history operation).deleteWhenIdle h with
      hearlier | ⟨rfl, hlast, hnone⟩
    · obtain ⟨earlier, hprefix, hgives⟩ := ih hearlier
      exact ⟨earlier, hprefix.trans (List.prefix_append _ _), hgives⟩
    · exact ⟨history, List.prefix_rfl, hlast, hnone⟩

/-- An index is deleted when it is asked to be, when its last share is given up, or when the last
scan ends after that. -/
theorem deletion_occasion (history : List Operation) (operation : Operation)
    (h : (after delete index world history).deletions <
      (after delete index world (history ++ [operation])).deletions) :
    (after delete index world (history ++ [operation])).scans = [] ∧
      (operation = .deleteIndex ∨
        (operation = .releaseOwner ∧ GivesUpLast delete index world history .releaseOwner) ∨
        ∃ earlier, earlier ++ [.releaseDeferred] <+: history ++ [operation] ∧
          GivesUpLast delete index world earlier .releaseDeferred) := by
  have hmoves := moves_after delete index world history operation
  have hsound := sound_after delete index world (history ++ [operation])
  rcases hmoves.deletions with hnone | ⟨hdeletions, hscans, occasion⟩
  · omega
  · have hdeleted : (after delete index world (history ++ [operation])).record.deleted := by
      have hcount := hsound.deletions_eq
      split at hcount
      · assumption
      · omega
    have howners := (hsound.gone hdeleted).1
    refine ⟨hscans, ?_⟩
    cases occasion with
    | asked => exact .inl rfl
    | released hlast => exact .inr (.inl ⟨rfl, hlast, howners⟩)
    | releasedDeferred hlast => exact .inr (.inr ⟨history, List.prefix_rfl, hlast, howners⟩)
    | idle hidle =>
      obtain ⟨earlier, hprefix, hgives⟩ :=
        exists_givesUpLast_of_deleteWhenIdle delete index world history hidle
      exact .inr (.inr ⟨earlier, hprefix.trans (List.prefix_append _ _), hgives⟩)

/-- From the registration of a scan to its end the index is not deleted. -/
theorem deletions_during_scan (history later : List Operation)
    (hbegun : (after delete index world history).begun <
      (after delete index world (history ++ [.beginScan])).begun)
    (hlater : .endScan (after delete index world history).begun ∉ later) :
    (after delete index world (history ++ .beginScan :: later)).deletions =
      (after delete index world history).deletions := by
  obtain ⟨hscan, hbefore⟩ := (moves_after delete index world history .beginScan).of_begun_lt hbegun
  have hstays := mem_scans_foldl delete (sound_after delete index world _) hscan hlater
  rw [← after_append, List.append_assoc, List.singleton_append] at hstays
  rw [(sound_after delete index world _).deletions_eq_zero
      ((sound_after delete index world _).deleted_of_mem_scans hstays),
    (sound_after delete index world _).deletions_eq_zero hbefore]

/-- A temporary index is deleted at most once, on an occasion for it and never under a scan.  Once
its shares are gone it stays out of use, and it waits to be deleted only under a scan. -/
theorem deleted_once_and_never_under_scan (history : List Operation) :
    (after delete index world history).deletions ≤ 1 ∧
    (∀ operation,
      (after delete index world history).deletions <
        (after delete index world (history ++ [operation])).deletions →
      (after delete index world (history ++ [operation])).scans = [] ∧
        (operation = .deleteIndex ∨
          (operation = .releaseOwner ∧ GivesUpLast delete index world history .releaseOwner) ∨
          ∃ earlier, earlier ++ [.releaseDeferred] <+: history ++ [operation] ∧
            GivesUpLast delete index world earlier .releaseDeferred)) ∧
    (∀ later,
      (after delete index world history).begun <
        (after delete index world (history ++ [.beginScan])).begun →
      .endScan (after delete index world history).begun ∉ later →
      (after delete index world (history ++ .beginScan :: later)).deletions =
        (after delete index world history).deletions) ∧
    ((after delete index world history).record.owners = 0 →
      ∀ later,
        (after delete index world (history ++ later)).record.owners = 0 ∧
          (after delete index world (history ++ later)).begun =
            (after delete index world history).begun ∧
          (after delete index world (history ++ later)).record.RefusesUse) ∧
    ((after delete index world history).record.deleteWhenIdle →
      (after delete index world history).record.owners = 0 ∧
        0 < (after delete index world history).record.inFlight ∧
        (after delete index world history).record.deleted = false) := by
  have hsound := sound_after delete index world history
  refine ⟨hsound.deletions_le_one, deletion_occasion delete index world history,
    deletions_during_scan delete index world history, ?_, hsound.idle⟩
  intro howners later
  rw [after_append]
  obtain ⟨hnone, hbegun⟩ := foldl_of_owners_eq_zero delete hsound howners later
  exact ⟨hnone, hbegun, refusesUse_of_owners hnone⟩

/-- The last share is given up under two scans.  The world refuses when they have ended, and deletes
the index when it is asked once more. -/
example :
    let delete : Delete Nat := fun index attempts =>
      (attempts + 1, if attempts = 0 then .error (.alreadyDeleted index.id) else .ok ())
    let history : List Operation :=
      [.beginScan, .beginScan, .releaseDeferred, .endScan 0, .endScan 1, .deleteIndex, .deleteIndex]
    (after delete (.ephemeral ⟨0⟩) 0 (history.take 5)).deletions = 0 ∧
      (after delete (.ephemeral ⟨0⟩) 0 history).deletions = 1 := by
  decide +kernel

end Usage

end Viewbase.Temporary
