import Valuer.Journal

set_option autoImplicit false

/-! # Dialogues

What a strategy does in a hook, as a tree: it looks at the run, sends a message and hears how that
went, notes something for the log, or is done. Each next step may depend on everything heard so far,
so the trees are all the ways to use a context, wise and foolish. `conduct` carries a dialogue out.

An `Act` is a dialogue that also has the strategy's own state and may break off with an error. The
state survives the error. -/

namespace Valuer

/-- A strategy's side of one hook. -/
inductive Dialogue (α : Type) where
  | done (a : α)
  | look (next : View → Dialogue α)
  | send (message : Message) (next : Except Error Unit → Dialogue α)
  | note (record : Record) (next : Dialogue α)

namespace Dialogue

variable {α β γ : Type}

/-- Goes on with another dialogue that depends on the outcome of the first. -/
def andThen : Dialogue α → (α → Dialogue β) → Dialogue β
  | .done a, f => f a
  | .look next, f => .look fun view => (next view).andThen f
  | .send message next, f => .send message fun outcome => (next outcome).andThen f
  | .note record next, f => .note record (next.andThen f)

instance : Monad Dialogue where
  pure := .done
  bind := andThen

theorem andThen_done (d : Dialogue α) : d.andThen .done = d := by
  induction d with
  | done a => rfl
  | look next ih => simp only [andThen, ih]
  | send message next ih => simp only [andThen, ih]
  | note record next ih => simp only [andThen, ih]

theorem andThen_assoc (d : Dialogue α) (f : α → Dialogue β) (g : β → Dialogue γ) :
    (d.andThen f).andThen g = d.andThen fun a => (f a).andThen g := by
  induction d with
  | done a => rfl
  | look next ih => simp only [andThen, ih]
  | send message next ih => simp only [andThen, ih]
  | note record next ih => simp only [andThen, ih]

instance : LawfulMonad Dialogue :=
  LawfulMonad.mk' Dialogue andThen_done (fun _ _ => rfl) andThen_assoc

/-- What a dialogue leaves: its events, the context and its outcome. -/
structure Outcome (α : Type) where
  events : Journal
  context : Context
  value : α

/-- Puts an event in front. -/
def Outcome.after (e : Event) (o : Outcome α) : Outcome α :=
  { o with events := e :: o.events }

/-- Carries a dialogue out in a context. -/
def conduct : Dialogue α → Context → Outcome α
  | .done a, ctx => ⟨[], ctx, a⟩
  | .look next, ctx => (conduct (next ctx.view) ctx).after (.looked ctx.view)
  | .send message next, ctx =>
      let (ctx', outcome) := ctx.send message
      (conduct (next outcome) ctx').after (.sent message outcome)
  | .note record next, ctx => (conduct next ctx).after (.noted record)

/-- Two dialogues in a row leave their events in a row. -/
theorem conduct_andThen (d : Dialogue α) (f : α → Dialogue β) (ctx : Context) :
    (d.andThen f).conduct ctx =
      let first := d.conduct ctx
      let second := (f first.value).conduct first.context
      { second with events := first.events ++ second.events } := by
  induction d generalizing ctx with
  | done a => rfl
  | look next ih => simp [andThen, conduct, Outcome.after, ih]
  | send message next ih => simp [andThen, conduct, Outcome.after, ih]
  | note record next ih => simp [andThen, conduct, Outcome.after, ih]

end Dialogue

/-! ## Acts -/

/-- A dialogue over a state, which an error may break off. -/
abbrev Act (σ α : Type) := ExceptT Error (StateT σ Dialogue) α

namespace Act

variable {σ α : Type}

/-- Carries an act out from a state. -/
def start (act : Act σ α) (s : σ) : Dialogue (Except Error α × σ) :=
  act.run.run s

/-- Sends a message; a message that fails breaks the act off. -/
def send (m : Message) : Act σ Unit :=
  ExceptT.mk fun s => .send m fun outcome => .done (outcome, s)

/-- What the strategy can see now. -/
def look : Act σ View :=
  ExceptT.mk fun s => .look fun view => .done (.ok view, s)

/-- Notes something for the log. -/
def note (level : Level) (text : String) : Act σ Unit :=
  ExceptT.mk fun s => .note ⟨level, text⟩ (.done (.ok (), s))

/-- Goes on with the value, or breaks off with the error. -/
def ofExcept (r : Except Error α) : Act σ α :=
  ExceptT.mk (pure r)

/-- Carries an act out and gives its outcome, error included, as a value. -/
def attempt (act : Act σ α) : Act σ (Except Error α) :=
  ExceptT.mk (Except.ok <$> act.run)

/-! ### What each step of an act is as a dialogue -/

variable {β : Type} (s : σ)

@[simp] theorem start_pure (a : α) : (pure a : Act σ α).start s = .done (.ok a, s) := rfl

@[simp] theorem start_throw (e : Error) : (throw e : Act σ α).start s = .done (.error e, s) := rfl

@[simp] theorem start_ofExcept (r : Except Error α) :
    (ofExcept r : Act σ α).start s = .done (r, s) :=
  rfl

@[simp] theorem start_get : (get : Act σ σ).start s = .done (.ok s, s) := rfl

@[simp] theorem start_set (t : σ) : (set t : Act σ PUnit).start s = .done (.ok (), t) := rfl

@[simp] theorem start_modify (f : σ → σ) :
    (modify f : Act σ PUnit).start s = .done (.ok (), f s) := rfl

@[simp] theorem start_send (m : Message) :
    (send m : Act σ Unit).start s = .send m fun outcome => .done (outcome, s) := rfl

@[simp] theorem start_look :
    (look : Act σ View).start s = .look fun view => .done (.ok view, s) := rfl

@[simp] theorem start_note (level : Level) (text : String) :
    (note level text : Act σ Unit).start s = .note ⟨level, text⟩ (.done (.ok (), s)) := rfl

/-- An act goes on after another unless that broke off; the state is kept in either case. -/
theorem start_bind (act : Act σ α) (f : α → Act σ β) :
    (act >>= f : Act σ β).start s = (act.start s).andThen fun r =>
      match r.1 with
      | .ok a => (f a).start r.2
      | .error e => .done (.error e, r.2) := by
  simp only [Act.start, ExceptT.run_bind, StateT.run_bind]
  show Dialogue.andThen _ _ = Dialogue.andThen _ _
  congr 1
  funext r
  obtain ⟨r, t⟩ := r
  cases r <;> rfl

end Act

end Valuer
