import Briefing.Error
import Briefing.Source

/-!
# Sessions

A session is a disk together with what the machine was asked for so far: the programs it was told
to run and the sources it was told to fetch. An activity goes on from a session and answers or
fails; a failure keeps what was done until then. A host is the machine that answers, each time from
the session so far.
-/

namespace Briefing

/-- A program to run in a directory. -/
inductive Call
  /-- A command for the shell, whose output is wanted. -/
  | shell (command : String) (directory : Path)
  /-- A file to execute before a rule is included. -/
  | script (path : Path) (directory : Path)
  /-- A text for the shell to execute before a rule is included. -/
  | inline (text : String) (directory : Path)
  deriving DecidableEq, Repr

/-- How a program ended. -/
structure Outcome where
  success : Bool
  output : String
  deriving DecidableEq, Repr

/-- A source to fetch. -/
inductive Fetch
  /-- A directory, and whether something was at its destination. -/
  | directory (source : Source) (destination : Path) (existed : Bool)
  /-- A text. -/
  | text (source : Source)
  deriving DecidableEq, Repr

/-- A disk, and what was asked for so far, the latest last. -/
structure Session where
  disk : Disk
  calls : List Call
  fetches : List Fetch

/-- Something done in a session, with its answer or why it failed. -/
def Activity (α : Type) : Type := Session → Except Error α × Session

namespace Activity

variable {α β : Type}

/-- The activity in a session. -/
def run (a : Activity α) (s : Session) : Except Error α × Session := a s

/-- Answers without doing anything. -/
protected def pure (x : α) : Activity α := fun s => (.ok x, s)

/-- Goes on with the answer of an activity, if there is one. -/
protected def bind (a : Activity α) (f : α → Activity β) : Activity β := fun s =>
  match a s with
  | (.ok x, s) => f x s
  | (.error e, s) => (.error e, s)

instance : Monad Activity where
  pure := Activity.pure
  bind := Activity.bind

theorem ext {a b : Activity α} (h : ∀ s, a.run s = b.run s) : a = b := funext h

@[simp] theorem run_pure (x : α) (s : Session) : (pure x : Activity α).run s = (.ok x, s) := rfl

@[simp] theorem run_bind (a : Activity α) (f : α → Activity β) (s : Session) :
    (a >>= f).run s = match a.run s with
      | (.ok x, s) => (f x).run s
      | (.error e, s) => (.error e, s) := rfl

instance : LawfulMonad Activity := LawfulMonad.mk' Activity
  (fun a => ext fun s => by
    show (a.bind (fun x => Activity.pure (id x))).run s = a.run s
    rcases h : a.run s with ⟨_ | _, _⟩ <;> simp_all [Activity.bind, Activity.pure, run])
  (fun _ _ => rfl)
  (fun a f g => ext fun s => by
    simp only [run_bind]
    rcases a.run s with ⟨_ | _, _⟩ <;> rfl)

/-- Fails. -/
def fail (e : Error) : Activity α := fun s => (.error e, s)

/-- Answers or fails without doing anything. -/
def ofExcept : Except Error α → Activity α
  | .ok x => pure x
  | .error e => fail e

/-- Answers or fails as the disk tells. -/
def onDisk (f : Disk → Except Error α) : Activity α := fun s => (f s.disk, s)

/-- Changes the disk, or fails and leaves it. -/
def change (f : Disk → Except Error Disk) : Activity Unit := fun s =>
  match f s.disk with
  | .ok d => (.ok (), { s with disk := d })
  | .error e => (.error e, s)

/-- Does an activity and then changes the disk in any case. -/
def finallyChange (a : Activity α) (f : Disk → Disk) : Activity α := fun s =>
  let (answer, s) := a s
  (answer, { s with disk := f s.disk })

@[simp] theorem run_fail (e : Error) (s : Session) : (fail e : Activity α).run s = (.error e, s) :=
  rfl

@[simp] theorem run_onDisk (f : Disk → Except Error α) (s : Session) :
    (onDisk f).run s = (f s.disk, s) := rfl

end Activity

/-- A machine: how it answers to calls and fetches in a session, and what they make of the disk. -/
structure Host where
  run : Call → Session → Outcome × Disk
  fetchDirectory : Source → Path → Session → Except Error Unit × Disk
  fetchText : Source → Session → Except Error String
  /-- Where directories are made that are not to last. -/
  temporary : Path

namespace Host

variable (host : Host)

/-- Has a program run. -/
def call (c : Call) : Activity Outcome := fun s =>
  let (outcome, disk) := host.run c s
  (.ok outcome, { s with disk := disk, calls := s.calls ++ [c] })

/-- Has a source fetched as a directory. -/
def fetch (source : Source) (destination : Path) : Activity Unit := fun s =>
  let (answer, disk) := host.fetchDirectory source destination s
  let asked := Fetch.directory source destination (s.disk.pathExists destination)
  (answer, { s with disk := disk, fetches := s.fetches ++ [asked] })

/-- Has a source fetched as a text. -/
def fetchedText (source : Source) : Activity String := fun s =>
  (host.fetchText source s, { s with fetches := s.fetches ++ [.text source] })

end Host

end Briefing
