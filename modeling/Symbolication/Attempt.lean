import Symbolication.Text.Quoted

namespace Symbolication

inductive Level where
  | debug
  | info
  | warning
  | error
  deriving DecidableEq, Repr

structure Record where
  level : Level
  message : Text
  deriving DecidableEq, Repr

inductive Event where
  | call (argv : List Text)
  | record (r : Record)
  deriving DecidableEq, Repr

namespace Event

def call? : Event → Option (List Text)
  | .call argv => some argv
  | .record _ => none

def record? : Event → Option Record
  | .call _ => none
  | .record r => some r

end Event

structure Traced (α : Type) where
  events : List Event
  value : α

namespace Traced

instance : Monad Traced where
  pure a := ⟨[], a⟩
  bind x f := ⟨x.events ++ (f x.value).events, (f x.value).value⟩

variable {α β : Type}

@[simp] theorem value_pure (a : α) : (pure a : Traced α).value = a := rfl

@[simp] theorem events_pure (a : α) : (pure a : Traced α).events = [] := rfl

@[simp] theorem value_bind (x : Traced α) (f : α → Traced β) :
    (x >>= f).value = (f x.value).value := rfl

@[simp] theorem events_bind (x : Traced α) (f : α → Traced β) :
    (x >>= f).events = x.events ++ (f x.value).events := rfl

instance : LawfulMonad Traced := LawfulMonad.mk' _
  (fun _ => by simp [Functor.map])
  (fun _ _ => rfl)
  (fun _ _ _ => by simp [bind])

def event (e : Event) : Traced Unit := ⟨[e], ()⟩

def log (level : Level) (message : Text) : Traced Unit := event (.record ⟨level, message⟩)

def calls (x : Traced α) : List (List Text) := x.events.filterMap Event.call?

def records (x : Traced α) : List Record := x.events.filterMap Event.record?

end Traced

structure Invocation where
  message : Text
  status : Option Int := none
  stderr : Text := []
  deriving DecidableEq, Repr

inductive Failure where
  | locate (candidates : List Text)
  | invoke (module : Option Text) (invocation : Invocation)
  | malformed (module : Text) (expected got : Int)
  deriving DecidableEq, Repr

namespace Failure

def stage : Failure → Text
  | .locate _ => spell "locate"
  | .invoke _ _ => spell "invoke"
  | .malformed _ _ _ => spell "parse output"

def module? : Failure → Option Text
  | .locate _ => none
  | .invoke module _ => module
  | .malformed module _ _ => some module

def message : Failure → Text
  | .locate candidates =>
      spell "no usable symbolizer found (tried: " ++
        (if candidates = [] then spell "(none)" else Text.join (spell ", ") candidates) ++ spell ")"
  | .invoke _ invocation => invocation.message
  | .malformed _ expected got =>
      spell "expected " ++ Text.integer expected ++ spell " result block(s), got " ++ Text.integer got

-- A module without a name is not mentioned.
def subject (f : Failure) : Text :=
  match f.module? with
  | none | some [] => []
  | some module => spell " for module " ++ module

def describe (f : Failure) : Text :=
  f.stage ++ spell " failed" ++ f.subject ++ spell ": " ++ f.message

end Failure

structure SystemError where
  errno : Int
  reason : Text
  file? : Option Text
  deriving DecidableEq, Repr

def SystemError.text (e : SystemError) : Text :=
  spell "[Errno " ++ Text.integer e.errno ++ spell "] " ++ e.reason ++
    match e.file? with
    | none => []
    | some file => spell ": " ++ quoted file

-- A failure is told in one record, and the run ends in good order. What is refused before a process
-- is even tried for has no handler.
inductive Halt where
  | failure (e : Failure)
  | refused (reason : Text)
  deriving DecidableEq, Repr

abbrev Attempt (α : Type) := ExceptT Halt Traced α

end Symbolication
