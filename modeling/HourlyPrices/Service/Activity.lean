import HourlyPrices.Cache
import HourlyPrices.Service.Publication
import HourlyPrices.Service.Source

/-!
# Activities

An activity is what the service does between its requests: it looks at the clock and at what is
subscribed, reads and replaces the cache, publishes and logs, and waits for the answers of the
source. It is a tree that branches on what it gets to see, so an activity can be run to its end
against a source that answers at once (`Activity.run`), or step by step, with time passing while it
waits (`Activity.advance`). An overflow ends an activity; what it has done up to there stays done.
-/

namespace HourlyPrices

/-- What can be seen from outside of an activity. -/
inductive Effect where
  | request (r : Request)
  | publication (p : Publication)
  | log (e : LogEvent)
  deriving DecidableEq

/-- The event of an effect in the log. A publication goes to the log too. -/
def Effect.event? : Effect → Option LogEvent
  | request _ => none
  | publication p => some p.toEvent
  | log e => some e

/-- What an activity sees of the world at a moment. -/
structure View where
  now : Instant
  /-- The channels that have consumers. -/
  subscribed : List Channel := []
  usage : Option ApiUsage := none

/-- An activity that ends with a value. -/
inductive Activity (α : Type) where
  | done (a : α)
  | overflow (o : Overflow)
  | look (next : View → Activity α)
  | read (next : Cache → Activity α)
  | write (cache : Cache) (rest : Activity α)
  | tell (effect : Effect) (rest : Activity α)
  | fetch (request : Request) (next : request.Answer → Activity α)

namespace Activity

variable {α β : Type}

/-- Goes on with what comes after. -/
def bind : Activity α → (α → Activity β) → Activity β
  | done a, f => f a
  | overflow o, _ => overflow o
  | look next, f => look fun v => (next v).bind f
  | read next, f => read fun c => (next c).bind f
  | write c rest, f => write c (rest.bind f)
  | tell e rest, f => tell e (rest.bind f)
  | fetch r next, f => fetch r fun a => (next a).bind f

instance : Monad Activity where
  pure := done
  bind := bind

/-- What is to be seen now. -/
def view : Activity View := look done

/-- The cache. -/
def cached : Activity Cache := read done

/-- Replaces the cache. -/
def store (c : Cache) : Activity Unit := write c (done ())

/-- Lets something be seen. -/
def emit (e : Effect) : Activity Unit := tell e (done ())

/-- Publishes. -/
def publish (p : Publication) : Activity Unit := emit (.publication p)

/-- Logs. -/
def log (c : LogContext) (level : LogLevel) (message : String) : Activity Unit :=
  emit (.log (c.event level message))

/-- Requests records. -/
def ask (r : Request) : Activity r.Answer := fetch r done

/-- A value unless it overflows. -/
def lift : Except Overflow α → Activity α
  | .ok a => done a
  | .error o => overflow o

/-! ## Running against a source that answers at once -/

/-- What an activity does: what was seen of it, the cache that it leaves, and its value unless an
overflow ended it. -/
structure Outcome (α : Type) where
  effects : List Effect
  cache : Cache
  value : Except Overflow α

/-- Puts an effect before an outcome. -/
def Outcome.after (e : Effect) (o : Outcome α) : Outcome α := { o with effects := e :: o.effects }

/-- Runs an activity to its end. -/
def run (v : View) (source : Source) : Activity α → Cache → Outcome α
  | done a, c => ⟨[], c, .ok a⟩
  | overflow o, c => ⟨[], c, .error o⟩
  | look next, c => run v source (next v) c
  | read next, c => run v source (next c) c
  | write d rest, _ => run v source rest d
  | tell e rest, c => (run v source rest c).after e
  | fetch r next, c => (run v source (next (source r)) c).after (.request r)

/-- Goes on with an outcome, unless it is an overflow. -/
def Outcome.bind (o : Outcome α) (f : α → Cache → Outcome β) : Outcome β :=
  match o.value with
  | .error e => ⟨o.effects, o.cache, .error e⟩
  | .ok a =>
    let p := f a o.cache
    { p with effects := o.effects ++ p.effects }

theorem run_bind (v : View) (source : Source) (a : Activity α) (f : α → Activity β) (c : Cache) :
    run v source (a.bind f) c = (run v source a c).bind fun x => run v source (f x) := by
  induction a generalizing c with
  | done _ => rfl
  | overflow _ => rfl
  | look next ih => exact ih v c
  | read next ih => exact ih c c
  | write d rest ih => exact ih d
  | tell e rest ih =>
    simp only [bind, run, ih, Outcome.bind, Outcome.after]
    cases (run v source rest c).value <;> rfl
  | fetch r next ih =>
    simp only [bind, run, ih, Outcome.bind, Outcome.after]
    cases (run v source (next (source r)) c).value <;> rfl

/-! ## Running step by step -/

/-- Where an activity stands: at its end, or waiting for an answer. -/
inductive Stage (α : Type) where
  | ended (value : Except Overflow α)
  | waiting (request : Request) (next : request.Answer → Activity α)

/-- Runs an activity until it has to wait. A request is seen when it is made. -/
def advance (v : View) : Activity α → Cache → List Effect × Cache × Stage α
  | done a, c => ([], c, .ended (.ok a))
  | overflow o, c => ([], c, .ended (.error o))
  | look next, c => advance v (next v) c
  | read next, c => advance v (next c) c
  | write d rest, _ => advance v rest d
  | tell e rest, c =>
    let (es, d, s) := advance v rest c
    (e :: es, d, s)
  | fetch r next, c => ([.request r], c, .waiting r next)

end Activity

end HourlyPrices
