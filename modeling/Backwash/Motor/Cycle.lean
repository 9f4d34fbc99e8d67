import Backwash.Motor.Bridge

/-! A backwash, seen from the outside: it is accepted, and one day it reports an
outcome.

`Moto_Cycle` accepts by posting `Forward`; the outcomes are the four bits of
`lcd_jump_event` that tell the display how it went. -/
namespace Backwash.Motor
open Concurrent Prog Firmware

/-- `JUMP_TDS`, `JUMP_FINISH`, `JUMP_STALLING`, `JUMP_NOMOTO`. -/
def isOutcome : JumpBit → Bool
  | .exit => false
  | _ => true

/-- The display thread posts `Forward` in `Moto_Cycle` only. -/
def accepts : Event Op Thread Call Input → Bool
  | .did .lcd (.motoSend .forward) _ => true
  | _ => false

def reports : Event Op Thread Call Input → Bool
  | .did _ (.jumpSend b) _ => isOutcome b
  | _ => false

theorem accepts_did {t : Thread} {o : Op} {i : Input} (h : o ≠ .motoSend .forward) : accepts (.did t o i) = false := by
  unfold accepts
  split
  · next heq => cases heq; exact absurd rfl h
  · rfl

theorem reports_did {t : Thread} {o : Op} {i : Input} (h : ∀ b, o = .jumpSend b → isOutcome b = false) :
    reports (.did t o i) = false := by
  unfold reports
  split
  · next heq => cases heq; exact h _ rfl
  · rfl

/-- A backwash was accepted and has not reported since. -/
def inProgress : Trace → Bool
  | [] => false
  | e :: tr => accepts e || (!reports e && inProgress tr)

/-! ### Whole backwashes -/

/-- A pass that finds both switches closed, with the motor current `v`. -/
def leftPass (v : Nat) : List Act := .start .motor .motoEntry :: turns .motor {value := v} 35

def lcdPass : List Act := alone .lcdTask {} 60

def press (k : Key) : List Act := alone (.key k) {} 12

/-- A reading of the battery. -/
def batteryReads (v : Nat) : List Act := alone .battery {value := v} 12

/-- K2 in the main window opens window 2, K2 there starts a backwash. -/
def byHand : List Act := lcdPass ++ press .k2 ++ lcdPass ++ lcdPass ++ press .k2 ++ lcdPass

end Backwash.Motor
