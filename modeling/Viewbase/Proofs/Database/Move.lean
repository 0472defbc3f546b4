import Mathlib.Logic.Relation
import Viewbase.Proofs.Database.Shares

/-!
What the steps of a database are made of.

Every step between two moments is a sequence of moves, each of which changes one thing: it takes a
job up, lets a run or a refresh go one stage further, or changes one live query (`Step.moves`).  So
what is to hold at every moment has to be checked against the moves only.
-/

namespace Viewbase

namespace Run

/-- With what control and outcome a run ends that was started, or whose start was refused. -/
inductive Concludes (run : Run) : Control → Outcome → Prop where
  | refused {error : QueryError} (hstage : run.stage = .admitted)
      (hcontrol : run.control = .pending) (hregistration : run.registration = .error error) :
      Concludes run .done (.error error)
  | discarded {result : Except IndexError Answer} (hstage : run.stage = .scanned result)
      (hcontrol : run.control ≠ .running) : Concludes run run.control (.error .cancelled)
  | failed {error : IndexError} (generation : Option Nat)
      (hstage : run.stage = .scanned (.error error)) (hcontrol : run.control = .running) :
      Concludes run .done (.error ((QueryError.ofIndexError error).wrap generation))
  | answered {answer : Answer} (hstage : run.stage = .scanned (.ok answer))
      (hcontrol : run.control = .running) : Concludes run .done (.ok answer)

end Run

namespace RefreshStage

/-- The run of the refresh is yet to be submitted. -/
inductive IsEarly : RefreshStage → Prop where
  | launched (delay : Nat) : IsEarly (.launched delay)
  | sleeping : IsEarly .sleeping
  | due : IsEarly .due

theorem IsEarly.not_over {stage : RefreshStage} (h : stage.IsEarly) :
    stage ≠ .over ∧ ∀ run, stage ≠ .awaiting run := by
  cases h <;> simp

end RefreshStage

namespace Database

variable {σ : Type}

/-- Let a new run take its first turn after all work that can go on. -/
def enter (db : Database σ) (run : Run) : Database σ :=
  { db with runs := db.runs ++ [run] }.wake (.run db.runs.length)

/-- Keep the generation of a good answer for a query. -/
def keepGeneration (query : Nat) (outcome : Outcome) (db : Database σ) : Database σ :=
  match outcome with
  | .ok answer => db.updateQuery query fun q => { q with lastGeneration := some answer.generation }
  | .error _ => db

/-- A job that could go on no further if it were taken up. -/
inductive Stuck (db : Database σ) : Job → Prop where
  | run {id : Nat}
      (h : ∀ run, db.runs[id]? = some run → run.stage = .scanning ∨ run.stage = .ended) :
      Stuck db (.run id)
  | refresh {task : Nat} (h : ∀ refresh, db.refreshes[task]? = some refresh →
      refresh.stage = .sleeping ∨ refresh.stage = .over ∨ db.lives[refresh.live]? = none) :
      Stuck db (.refresh task)

end Database

/-- A moment in the middle of a step. -/
structure Stance (σ : Type) extends Moment σ where
  /-- The job that was taken up and is to go on. -/
  hand : Option Job

/-- A move changes one thing.  Runs and refreshes go on in the hand, from a permit or a timer to
where they wait next. -/
inductive Move {σ : Type} : Stance σ → Stance σ → Prop where
  | beside {s : Stance σ} {db : Database σ} (h : s.db.Beside db)
      (hshares : s.db.Shares → db.Shares) : Move s { s with db := db }
  /-- The subscriptions of live queries stay. -/
  | subscriptions {s : Stance σ} {subscriptions : List Subscription} {tokens : Nat}
      (htokens : s.db.store.tokens ≤ tokens)
      (hkept : ∀ live ∈ s.db.lives, ∀ sub ∈ s.db.store.subscriptions,
        live.token = some sub.token → sub ∈ subscriptions) :
      Move s
        { s with db := { s.db with
            store := { s.db.store with subscriptions := subscriptions, tokens := tokens } } }
  | takeUp {s : Stance σ} {job : Job} (hhand : s.hand = none) (hready : job ∈ s.db.ready) :
      Move s { s with db := { s.db with ready := s.db.ready.erase job }, hand := some job }
  | drop {s : Stance σ} {job : Job} (hhand : s.hand = some job) (hstuck : s.db.Stuck job) :
      Move s { s with hand := none }
  -- Runs
  | submit {s : Stance σ} {query : Nat} {request : Request}
      {registration : Except QueryError (Option Nat)} {recipient : Recipient}
      (howns : s.db.OwnsQuery query) (hrecipient : ∀ task, recipient ≠ .refresh task) :
      Move s { s with db := s.db.enter (.new query request registration recipient) }
  | cancel {s : Stance σ} {id : Nat} {run : Run} (hrun : s.db.runs[id]? = some run)
      (hrecipient : ∀ task, run.recipient ≠ .refresh task) :
      Move s { s with db := (s.db.cancel id).1 }
  | permit {s : Stance σ} {id : Nat} {run : Run} (hhand : s.hand = some (.run id))
      (hrun : s.db.runs[id]? = some run) (hstage : run.stage = .waiting)
      (hpermits : 0 < s.db.permits) : Move s { s with db := s.db.takePermit id }
  | queue {s : Stance σ} {id : Nat} {run : Run} (hhand : s.hand = some (.run id))
      (hrun : s.db.runs[id]? = some run) (hstage : run.stage = .waiting)
      (hpermits : ¬0 < s.db.permits) :
      Move s { s with db := s.db.takePermit id, hand := none }
  | grant {s : Stance σ} : Move s { s with db := s.db.givePermit }
  | startRun {s : Stance σ} {id : Nat} {run : Run} (hhand : s.hand = some (.run id))
      (hrun : s.db.runs[id]? = some run) (hstage : run.stage = .admitted)
      (hcontrol : run.control = .pending)
      (hregistration : ∃ temporary, run.registration = .ok temporary) :
      Move s
        { s with
          db := ({ s.db with scanning := s.db.scanning ++ [id] }).updateRun id fun run =>
            { run with control := .running, stage := .scanning }
          hand := none }
  /-- The run was cancelled before it started. -/
  | abandon {s : Stance σ} {id : Nat} {run : Run} (hhand : s.hand = some (.run id))
      (hrun : s.db.runs[id]? = some run) (hstage : run.stage = .admitted)
      (hcontrol : run.control ≠ .pending) :
      Move s { s with db := s.db.abandon id run.recipient, hand := none }
  | scan {s : Stance σ} {id : Nat} {run : Run} (hscanning : id ∈ s.db.scanning)
      (hrun : s.db.runs[id]? = some run) :
      Move s
        { s with
          db := (({ s.db with
              store := (s.db.store.scan run.request).1
              scanning := s.db.scanning.filter (· != id) }).updateRun id fun other =>
            { other with stage := .scanned (s.db.store.scan run.request).2 }).wake (.run id) }
  | conclude {s : Stance σ} {id : Nat} {run : Run} {control : Control} {outcome : Outcome}
      (hhand : s.hand = some (.run id)) (hrun : s.db.runs[id]? = some run)
      (hconcludes : run.Concludes control outcome) :
      Move s
        { s with
          db := ((s.db.keepGeneration run.query outcome).updateRun id fun other =>
            { other with control := control, stage := .ended, outcome := some outcome
              }).wakeRecipient run.recipient
          hand := none }
  -- Live queries
  /-- The share that the query of the live query holds was taken before. -/
  | makeLive {s : Stance σ} {shared : Database σ} {index : Descriptor} {query : Query}
      (h : s.db.Beside shared)
      (hshares : s.db.Shares →
        Database.Sharing shared.store shared.temporaries (shared.queries ++ [query]))
      (hindex : query.index = some index) (hdisposed : query.disposed = false) :
      Move s
        { s with db := { shared with
            queries := shared.queries ++ [query]
            lives := shared.lives ++ [LiveQuery.new index shared.queries.length] } }
  | listen {s : Stance σ} (id : Nat) (change : LiveQuery → List Nat) :
      Move s
        { s with db := s.db.updateLive id fun live => { live with listeners := change live } }
  /-- The index of the live query is not there to subscribe to. -/
  | startInVain {s : Stance σ} {id : Nat} {live : LiveQuery} (hlive : s.db.lives[id]? = some live)
      (hstopped : live.phase = .stopped) :
      Move s
        { s with db := s.db.updateLive id fun other => { other with epoch := live.epoch + 1 } }
  | startLive {s : Stance σ} {id : Nat} {live : LiveQuery} {token : Token} {store : Store}
      (hlive : s.db.lives[id]? = some live) (hheld : live.held) (hdisposed : live.disposed = false)
      (hstopped : live.phase = .stopped)
      (hsubscribe : s.db.store.subscribe live.index (.live id (live.epoch + 1)) =
        .ok (token, store)) :
      Move s
        { s with db := (({ s.db with store := store }).updateLive id fun other =>
            { other with
              epoch := live.epoch + 1
              token := some token
              phase := .awaitingInitial false }).launch id (live.epoch + 1) 0 }
  | stop {s : Stance σ} {id : Nat} {live : LiveQuery} (hlive : s.db.lives[id]? = some live)
      (hrunning : live.phase ≠ .stopped) :
      Move s
        { s with db := ((s.db.updateLive id fun other =>
            { other with
              epoch := other.epoch + 1
              phase := .stopped
              running := none
              token := none }).cancelRunning live.running).endSubscription live.token }
  | dispose {s : Stance σ} (id : Nat) :
      Move s { s with db := s.db.updateLive id fun live => { live with disposed := true } }
  | letGo {s : Stance σ} {id : Nat}
      (hstopped : ∀ live, s.db.lives[id]? = some live → live.phase = .stopped) :
      Move s { s with db := s.db.updateLive id fun live => { live with held := false } }
  /-- The share that the query held was released before. -/
  | giveUp {s : Stance σ} {released : Database σ} {id : Nat} {live : LiveQuery}
      (h : s.db.Beside released)
      (hshares : s.db.Shares → (released.markDisposed live.query).Shares)
      (hlive : s.db.lives[id]? = some live)
      (hfree : live.held = false ∨ (live.disposed ∧ live.phase = .stopped)) :
      Move s { s with db := released.markDisposed live.query }
  -- Changes
  | write {s : Stance σ} {command : Command} {id : String} {edit : Store.Edit} {store : Store}
      {doc : Document} (hedit : command.edit? = some (id, edit))
      (hwrite : s.db.store.write id edit = .ok (store, doc)) :
      Move s
        { s with
          db := { s.db with store := store }
          pending := s.pending ++ store.audience.map fun observer =>
            (observer, ⟨store.generation, [id]⟩) }
  /-- A change that calls for nothing is told. -/
  | overhear {s : Stance σ} {earlier later : List (Observer × Change)} {observer : Observer}
      {change : Change} (hpending : s.pending = earlier ++ (observer, change) :: later)
      (hignored : ∀ id epoch live, observer = .live id epoch → s.db.lives[id]? = some live →
        live.epoch = epoch →
        LiveQuery.react live.phase (s.db.lastGeneration live.query) change.generation = .ignore) :
      Move s { s with pending := earlier ++ later }
  | coalesce {s : Stance σ} {earlier later : List (Observer × Change)} {id : Nat}
      {live : LiveQuery} {change : Change}
      (hpending : s.pending = earlier ++ (.live id live.epoch, change) :: later)
      (hlive : s.db.lives[id]? = some live)
      (hreact : LiveQuery.react live.phase (s.db.lastGeneration live.query) change.generation =
        .coalesce) :
      Move s
        { s with
          db := s.db.count fun m => { m with liveCoalesced := m.liveCoalesced + 1 }
          pending := earlier ++ later }
  | remember {s : Stance σ} {earlier later : List (Observer × Change)} {id : Nat}
      {live : LiveQuery} {change : Change}
      (hpending : s.pending = earlier ++ (.live id live.epoch, change) :: later)
      (hlive : s.db.lives[id]? = some live)
      (hreact : LiveQuery.react live.phase (s.db.lastGeneration live.query) change.generation =
        .remember) :
      Move s
        { s with
          db := s.db.updateLive id fun live =>
            { live with phase := LiveQuery.remembering live.phase }
          pending := earlier ++ later }
  | launch {s : Stance σ} {earlier later : List (Observer × Change)} {id : Nat}
      {live : LiveQuery} {change : Change}
      (hpending : s.pending = earlier ++ (.live id live.epoch, change) :: later)
      (hlive : s.db.lives[id]? = some live)
      (hreact : LiveQuery.react live.phase (s.db.lastGeneration live.query) change.generation =
        .launch) :
      Move s
        { s with
          db := (s.db.updateLive id fun live => { live with phase := .requerying false }).launch id
            live.epoch s.db.config.updateInterval
          pending := earlier ++ later }
  -- Refreshes
  | sleep {s : Stance σ} {task delay due : Nat} {refresh : Refresh}
      (hhand : s.hand = some (.refresh task)) (htask : s.db.refreshes[task]? = some refresh)
      (hstage : refresh.stage = .launched delay) :
      Move s
        { s with
          db := { s.db with timers := s.db.timers ++ [Timer.mk due task] }.updateRefresh task
            fun refresh => { refresh with stage := .sleeping }
          hand := none }
  | ring {s : Stance σ} {earlier later : List Timer} {timer : Timer}
      (htimers : s.db.timers = earlier ++ timer :: later) :
      Move s
        { s with db := ({ s.db with timers := earlier ++ later }.updateRefresh timer.refresh
            fun refresh => { refresh with stage := .due }).wake (.refresh timer.refresh) }
  /-- The refresh is of an earlier epoch. -/
  | lapse {s : Stance σ} {task : Nat} {refresh : Refresh} {live : LiveQuery}
      (hhand : s.hand = some (.refresh task)) (htask : s.db.refreshes[task]? = some refresh)
      (hstage : refresh.stage.IsEarly) (hlive : s.db.lives[refresh.live]? = some live)
      (hcurrent : live.isCurrent refresh.epoch = false) :
      Move s
        { s with
          db := s.db.updateRefresh task fun refresh => { refresh with stage := .over }
          hand := none }
  | execute {s : Stance σ} {task : Nat} {refresh : Refresh} {live : LiveQuery} {request : Request}
      {registration : Except QueryError (Option Nat)} (hhand : s.hand = some (.refresh task))
      (htask : s.db.refreshes[task]? = some refresh) (hstage : refresh.stage.IsEarly)
      (hlive : s.db.lives[refresh.live]? = some live)
      (hcurrent : live.isCurrent refresh.epoch = true)
      (hrequest : ∀ query, s.db.queries[live.query]? = some query → request = query.request)
      (hregistration : registration ≠ .error .cancelled) :
      Move s
        { s with
          db := ((s.db.enter (.new live.query request registration (.refresh task))).updateLive
            refresh.live fun live => { live with running := some s.db.runs.length }).updateRefresh
              task fun refresh => { refresh with stage := .awaiting s.db.runs.length }
          hand := none }
  /-- The outcome of a refresh of an earlier epoch is ignored. -/
  | ignore {s : Stance σ} {task run : Nat} {refresh : Refresh}
      (hhand : s.hand = some (.refresh task)) (htask : s.db.refreshes[task]? = some refresh)
      (hstage : refresh.stage = .awaiting run)
      (hcurrent : ∀ live, s.db.lives[refresh.live]? = some live →
        live.isCurrent refresh.epoch = false) :
      Move s { s with telling := task :: s.telling, hand := none }
  | takeIn {s : Stance σ} {task id : Nat} {refresh : Refresh} {run : Run} {live : LiveQuery}
      (hhand : s.hand = some (.refresh task)) (htask : s.db.refreshes[task]? = some refresh)
      (hstage : refresh.stage = .awaiting id) (hrun : s.db.runs[id]? = some run)
      (hlive : s.db.lives[refresh.live]? = some live)
      (hcurrent : live.isCurrent refresh.epoch = true) :
      Move s
        { s with
          db := (s.db.updateLive refresh.live fun other =>
            { other.absorb (live.judge run.answer) with running := none }).settleLive
              refresh.live live
          telling := task :: s.telling
          hand := none }
  | retire {s : Stance σ} {task : Nat} (htelling : task ∈ s.telling) :
      Move s
        { s with
          db := s.db.updateRefresh task fun refresh => { refresh with stage := .over }
          telling := s.telling.filter fun other => other != task }

/-- Any number of moves. -/
abbrev Moves {σ : Type} : Stance σ → Stance σ → Prop :=
  Relation.ReflTransGen Move

end Viewbase
