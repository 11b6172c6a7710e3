import Lidbg.Machine.Run
import Lidbg.Machine.CStr
import Mathlib.Data.Vector.Basic

/-!
# Touch passwords (`core/lidbg_ts_event.c`)

A thread samples the touch screen. A touch that is released counts for the
corner it began in: three corners type a digit, the fourth resets. The sixth
digit launches: the callback registered for the digits is called, if touch
events are enabled or the digits are `PASSWORD_TE_ON`.

Other threads write the variables between two sleeps of this one, so a step is
either such a write or one turn of the thread up to its next sleep. The buffer
`prepare_cmd` has no room for a NUL behind six digits: the turn carries the
string that memory holds right behind it.
-/

namespace Lidbg.TsEvent

open Machine

/-- `PASSWORD_TE_ON`. -/
def passwordTeOn : List UInt8 := ascii "001122"

abbrev sceenX : Int := 1024
abbrev sceenY : Int := 600
abbrev rectWide : Int := 100
abbrev rectHigh : Int := rectWide

/-- `CMD_MAX`. -/
abbrev cmdMax : Nat := 6

/-- `struct tspara`. -/
structure Tspara where
  x : Int
  y : Int
  press : Bool

/-! ## The corners -/

/-- `struct devrect`. -/
structure Devrect where
  name : UInt8
  id : Nat
  wide : Int
  high : Int
  x0 : Int
  y0 : Int

def devrectList : List Devrect :=
  [⟨48, 0, rectWide, rectHigh, 0, 0⟩,
   ⟨49, 1, rectWide, rectHigh, sceenX - rectWide, 0⟩,
   ⟨50, 2, rectWide, rectHigh, 0, sceenY - rectHigh⟩,
   ⟨51, 3, rectWide, rectHigh, sceenX - rectWide, sceenY - rectHigh⟩]

/-- The macro `clear`. -/
def clear : Nat := 3

/-- `get_num`; `none` is its `-1`. -/
def getNum (p : Tspara) : Option Nat :=
  (devrectList.find? fun r =>
    p.x > r.x0 ∧ p.y > r.y0 ∧ p.x < r.x0 + r.wide ∧ p.y < r.y0 + r.high).map Devrect.id

/-! ## Passwords -/

section Passwords

variable {κ : Type}

/-- `struct dev_password`; `te_regist_password` lets no null pointer in. -/
structure DevPassword (κ : Type) where
  password : CStr
  cbPassword : κ

/-- What the thread and the writers of its variables share. `waiting` is the
thread inside `while(g_curr_tspara.press)`, with `num`. -/
structure State (κ : Type) where
  tePasswordList : List (DevPassword κ)
  gCurrTspara : Tspara
  prepareCmd : Vector UInt8 cmdMax
  prepareCmdpos : Nat
  gIsTeEnable : Int
  gTeScandelayMs : Int
  waiting : Option Nat

/-- The thread has just started. -/
def State.start : State κ where
  tePasswordList := []
  gCurrTspara := ⟨0, 0, false⟩
  prepareCmd := Vector.replicate cmdMax 0
  prepareCmdpos := 0
  gIsTeEnable := 0
  gTeScandelayMs := 100
  waiting := none

/-- What is seen of a step: a touch that counts for corner `num`, and a callback
called. -/
inductive Obs (κ : Type) where
  | touch (num : Nat)
  | call (password : List UInt8) (cb : κ)

/-- `is_password_exist`. -/
def isPasswordExist (list : List (DevPassword κ)) (password : CStr) : Bool :=
  list.any fun pos => pos.password.chars = password.chars

/-- `te_regist_password`, with `regist_password` and `new_password_dev`. -/
def teRegistPassword (s : State κ) (password : Option CStr) (cbPassword : Option κ) : State κ :=
  match password, cbPassword with
  | some password, some cbPassword =>
    if isPasswordExist s.tePasswordList password then s
    else { s with tePasswordList := ⟨password, cbPassword⟩ :: s.tePasswordList }
  | _, _ => s

/-- The callbacks `call_password_cb` calls for a string, in its order. -/
def callPasswordCb (list : List (DevPassword κ)) (password : List UInt8) : List (DevPassword κ) :=
  list.filter fun pos => pos.password.chars = password

/-! ## The thread -/

/-- `reset_cmd`. -/
def resetCmd (s : State κ) : State κ :=
  { s with prepareCmdpos := 0, prepareCmd := Vector.replicate cmdMax 0 }

/-- What `strcmp` finds at `prepare_cmd`, `behind` being the string behind it. -/
def cmdString (s : State κ) (behind : CStr) : List UInt8 :=
  cstr (s.prepareCmd.toList ++ behind.chars ++ [0])

/-- The callbacks `launch_cmd` calls. -/
def launched (s : State κ) (behind : CStr) : List (DevPassword κ) :=
  if s.gIsTeEnable ≠ 0 ∨ cmdString s behind = passwordTeOn then
    callPasswordCb s.tePasswordList (cmdString s behind)
  else []

/-- `launch_cmd`. `effect` is what a callback does to `g_is_te_enable`. -/
def launchCmd (effect : κ → Int → Int) (s : State κ) (behind : CStr) : State κ × List (Obs κ) :=
  (resetCmd { s with
    gIsTeEnable := (launched s behind).foldl (fun v pos => effect pos.cbPassword v) s.gIsTeEnable },
   (launched s behind).map fun pos => .call pos.password.chars pos.cbPassword)

/-- `getnum_andanalysis` behind its `while(g_curr_tspara.press)`. -/
def analyseNum (effect : κ → Int → Int) (s : State κ) (num : Nat) (behind : CStr) :
    Option (State κ × List (Obs κ)) :=
  if clear = num then some (resetCmd s, [.touch num])
  else
    match devrectList[num]? with
    | none => none
    | some rect =>
      if h : s.prepareCmdpos < cmdMax then
        let s' := { s with
          prepareCmd := s.prepareCmd.set s.prepareCmdpos rect.name h
          prepareCmdpos := s.prepareCmdpos + 1 }
        if s'.prepareCmdpos ≥ cmdMax then
          some ((launchCmd effect s' behind).1, .touch num :: (launchCmd effect s' behind).2)
        else some (s', [.touch num])
      else none

/-- One turn of `thread_te_analysis`, from one sleep to the next. -/
def threadTeAnalysis (effect : κ → Int → Int) (s : State κ) (behind : CStr) :
    Option (State κ × List (Obs κ)) :=
  match s.waiting with
  | some num =>
    if s.gCurrTspara.press then some (s, [])
    else analyseNum effect { s with waiting := none } num behind
  | none =>
    if s.gTeScandelayMs ≠ 0 ∧ s.gCurrTspara.press then
      match getNum s.gCurrTspara with
      | some num => some ({ s with waiting := some num }, [])
      | none => some (s, [])
    else some (s, [])

/-- What happens between two turns, and the turn. -/
inductive Event (κ : Type) where
  | regist (password : Option CStr) (cbPassword : Option κ)
  | touch (p : Tspara)
  | enable (v : Int)
  | scandelay (v : Int)
  | turn (behind : CStr)

def step (effect : κ → Int → Int) : Step (State κ) (Event κ) (Obs κ) := fun s e =>
  match e with
  | .regist password cbPassword => some (teRegistPassword s password cbPassword, [])
  | .touch p => some ({ s with gCurrTspara := p }, [])
  | .enable v => some ({ s with gIsTeEnable := v }, [])
  | .scandelay v => some ({ s with gTeScandelayMs := v }, [])
  | .turn behind => threadTeAnalysis effect s behind

end Passwords

end Lidbg.TsEvent
