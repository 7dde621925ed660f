import BlockScript.Number.Fixed
import BlockScript.Param

namespace BlockScript

inductive Notice
  | ignoredParameter (name : String) (value : Param) (block : String)
  | unknownBehavior (object behavior : String)
  | unsupportedBlock (script block type : String)
  | duplicateBlock (script block : String)
  | duplicateObject (object : String)
  | loaded (objects : Nat) (path : String)
  | started (object : String) (scripts : Nat)
  | clicked (object : String) (scripts : Nat)
  | switched (playing : Bool)
  | dispatched (script block : String)
  | completed (script : String)
  | ignoredClick (object : String) (now : Float)

namespace Notice

inductive Level
  | warn
  | info
  | debug
  | trace
deriving DecidableEq

def Level.name : Level → String
  | .warn => "WARN"
  | .info => "INFO"
  | .debug => "DEBUG"
  | .trace => "TRACE"

def level : Notice → Level
  | ignoredParameter .. | unknownBehavior .. | unsupportedBlock .. | duplicateBlock ..
  | duplicateObject .. => .warn
  | loaded .. | switched .. | ignoredClick .. => .info
  | started .. | clicked .. | completed .. => .debug
  | dispatched .. => .trace

def message : Notice → String
  | ignoredParameter name value block =>
    "ignoring parameter " ++ name ++ "=" ++ value.description ++ " on " ++ block
  | unknownBehavior object behavior => object ++ ": unknown behavior type " ++ behavior
  | unsupportedBlock script block type =>
    "script " ++ script ++ ": block " ++ block ++ " has unsupported type " ++ type
  | duplicateBlock script block =>
    "script " ++ script ++ ": dropping duplicate block " ++ block ++ " and its children"
  | duplicateObject object => "dropping duplicate object " ++ object
  | loaded objects path => "loaded " ++ toString objects ++ " object(s) from " ++ path
  | started object scripts => object ++ ": started " ++ toString scripts ++ " script(s)"
  | clicked object scripts => object ++ ": click restarted " ++ toString scripts ++ " script(s)"
  | switched playing => "switched to " ++ (if playing then "play" else "edit") ++ " mode"
  | dispatched script block => "script " ++ script ++ ": " ++ block
  | completed script => "script " ++ script ++ " ran to completion"
  | ignoredClick object now =>
    "ignored click on " ++ object ++ " at " ++ Number.fixed 3 now ++ "s"

def line (n : Notice) : String :=
  n.level.name ++ " " ++ n.message

end Notice

structure Logged (α : Type) where
  value : α
  notices : List Notice

namespace Logged

variable {α β : Type}

instance : Monad Logged where
  pure a := ⟨a, []⟩
  bind x f :=
    let y := f x.value
    ⟨y.value, x.notices ++ y.notices⟩

def note (n : Notice) : Logged Unit := ⟨(), [n]⟩

@[simp] theorem value_pure (a : α) : (pure a : Logged α).value = a := rfl

@[simp] theorem value_bind (x : Logged α) (f : α → Logged β) :
    (x >>= f).value = (f x.value).value := rfl

@[simp] theorem value_map (f : α → β) (x : Logged α) : (f <$> x).value = f x.value := rfl

@[simp] theorem notices_pure (a : α) : (pure a : Logged α).notices = [] := rfl

@[simp] theorem notices_bind (x : Logged α) (f : α → Logged β) :
    (x >>= f).notices = x.notices ++ (f x.value).notices := rfl

theorem bind_congr {x : Logged α} {f g : α → Logged β} (h : f x.value = g x.value) :
    x >>= f = x >>= g :=
  congrArg (fun y : Logged β => (⟨y.value, x.notices ++ y.notices⟩ : Logged β)) h

theorem value_foldlM (f : β → α → Logged β) (b : β) (as : List α) :
    (as.foldlM f b).value = as.foldl (fun b a => (f b a).value) b := by
  induction as generalizing b with
  | nil => rfl
  | cons a as ih => exact ih (f b a).value

instance : LawfulMonad Logged := LawfulMonad.mk' Logged
  (fun _ => congrArg (Logged.mk _) (List.append_nil _))
  (fun _ _ => rfl)
  (fun _ _ _ => congrArg (Logged.mk _) (List.append_assoc ..))

theorem value_mapM (f : α → Logged β) (as : List α) :
    (as.mapM f).value = as.map fun a => (f a).value := by
  induction as with
  | nil => rfl
  | cons a as ih => rw [List.mapM_cons, value_bind, value_bind, ih]; rfl

end Logged

end BlockScript
